import Mathlib
import AzureSdk.Lib.EState
import AzureSdk.Lib.SortedMap
import AzureSdk.Identity.TokenCache
import AzureSdk.Messaging.TokenRefresh

/-!
# The Event Hubs authorizer and its token refresher

`Authorizer::authorize_path` hands out the token cached for a path, or asks the
credential for one, presents it on the connection's claims-based security link and
caches it, unless a recovery advanced the connection's generation meanwhile; then it
tries again, at most `MAX_GENERATION_RETRIES` rounds. The first token it caches starts
the refresher.

Each pass of the refresher asks the credential again for every token due within the
jittered bias. A token whose expiry did not advance marks its path non-refreshable:
the path is left out of every later pass and its cached token is never replaced
(`run_keeps_stuck`). A credential of `azure_identity` hands back its cached token until
five minutes before expiry, while the pass comes about six minutes before; so the
first pass gets the same token back and marks the path (`refreshDueTokens_of_fresh`).

The connection's answers are given with each step (`Connection`); `AmqpError` is
modelled by `azure_core::Error`.
-/

namespace EventHubs

set_option autoImplicit false

open AzureCore Messaging EState AzureIdentity

/-- `EVENTHUBS_AUTHORIZATION_SCOPE`. -/
def authorizationScope : List (List Char) := ["https://eventhubs.azure.net/.default".toList]

def maxGenerationRetries : Nat := 8

/-- `TOKEN_REFRESH_RETRY_BACKOFF`: thirty seconds. -/
def tokenRefreshRetryBackoff : Int := 30000

/-- What the recoverable connection answers in one step: whether the refresher's weak
reference still upgrades, what `perform_authorization` (the CBS `authorize_path`) returns
for a path and token,
and whether the `n`-th generation check of the step finds the captured generation
current. -/
structure Connection where
  upgrades : Bool
  performAuthorization : List Char → AccessToken → Except Error Unit
  generationIsCurrent : Nat → Bool

inductive RefreshPass where
  | completed (failed : Bool)
  | discarded
  | stop
  deriving DecidableEq

/-- The authorizer, with the refresher's `non_refreshable`, which lives as long as the
task. -/
structure Authorizer (σ : Type) where
  authorizationScopes : List (List Char × AccessToken)
  authorizationRefresher : RefresherPc
  tokenRefreshBias : TokenRefreshTimes
  credential : σ
  nonRefreshable : List (List Char)

/-- The pass's loop state: the tokens refreshed, `non_refreshable`, whether a path failed,
and the credential. -/
structure Gathered (σ : Type) where
  credential : σ
  updatedTokens : List (List Char × AccessToken)
  nonRefreshable : List (List Char)
  refreshFailed : Bool

def retryBudgetExceeded (path : List Char) : Error :=
  ⟨.other, "Exceeded retry budget (".toList ++ (Nat.repr maxGenerationRetries).toList ++
    ") authorizing path \x27".toList ++ path ++ "\x27 across recoveries".toList⟩

namespace Authorizer

variable {σ : Type} (credential : TokenCredential σ) (connection : Connection) (now : Int)

def new (state : σ) : Authorizer σ := ⟨[], .notStarted, .default, state, []⟩

/-- One call of `get_token`, its result kept as a value. -/
def getToken : EStateM Error (Authorizer σ) (Except Error AccessToken) :=
  modifyGet fun authorizer =>
    let (state, result) := credential authorizer.credential authorizationScope now
    (result, { authorizer with credential := state })

/-- The slow path of a round: a fresh token presented on the link and, under a current
generation, cached (or the token another caller cached first) with the refresher
started. -/
def authorizeSlow (path : List Char) (attempt : Nat) :
    EStateM Error (Authorizer σ) (Option AccessToken) := do
  let token ← MonadExcept.ofExcept (← getToken credential now)
  MonadExcept.ofExcept (connection.performAuthorization path token)
  if connection.generationIsCurrent attempt then
    let stored ← modifyGet fun authorizer =>
      match SortedMap.get authorizer.authorizationScopes path with
      | some cached => (cached, authorizer)
      | none =>
          (token,
            { authorizer with authorizationScopes := SortedMap.insert authorizer.authorizationScopes path token })
    modify fun authorizer =>
      { authorizer with authorizationRefresher := authorizer.authorizationRefresher.getOrInit }
    pure (some stored)
  else pure none

/-- One round of `authorize_path`'s loop: the fast path, else the slow one. -/
def authorizeAttempt (path : List Char) (attempt : Nat) :
    EStateM Error (Authorizer σ) (Option AccessToken) := do
  match SortedMap.get (← get).authorizationScopes path with
  | some token => pure (some token)
  | none => authorizeSlow credential connection now path attempt

def authorizeRounds (path : List Char) : Nat → Nat → EStateM Error (Authorizer σ) AccessToken
  | 0, _ => throw (retryBudgetExceeded path)
  | rounds + 1, attempt => do
      match ← authorizeAttempt credential connection now path attempt with
      | some token => pure token
      | none => authorizeRounds path rounds (attempt + 1)

def authorizePath (path : List Char) : EStateM Error (Authorizer σ) AccessToken :=
  authorizeRounds credential connection now path maxGenerationRetries 0

/-- The `tokens_to_refresh` of a pass: each path outside `non_refreshable` whose token
expires before `now` plus the bias, with that expiry. -/
def tokensToRefresh (authorizer : Authorizer σ) (bias : Int) : List (List Char × Int) :=
  authorizer.authorizationScopes.filterMap fun entry =>
    if entry.1 ∈ authorizer.nonRefreshable then none
    else if now + bias ≤ entry.2.expiresOn then none
    else some (entry.1, entry.2.expiresOn)

def refreshPath (gathered : Gathered σ) : List Char × Int → Gathered σ
  | (url, previousExpiry) =>
      match credential gathered.credential authorizationScope now with
      | (state, .error _) => { gathered with credential := state, refreshFailed := true }
      | (state, .ok newToken) =>
          if newToken.expiresOn ≤ previousExpiry then
            { gathered with credential := state, nonRefreshable := gathered.nonRefreshable.insert url }
          else
            match connection.performAuthorization url newToken with
            | .error _ => { gathered with credential := state, refreshFailed := true }
            | .ok () =>
                { gathered with
                  credential := state
                  updatedTokens := SortedMap.insert gathered.updatedTokens url newToken }

def refreshDueTokens (bias : Int) (authorizer : Authorizer σ) : RefreshPass × Authorizer σ :=
  let due := tokensToRefresh now authorizer bias
  if due.isEmpty then (.completed false, authorizer)
  else if !connection.upgrades then (.stop, authorizer)
  else
    let gathered := due.foldl (refreshPath credential connection now)
      ⟨authorizer.credential, [], authorizer.nonRefreshable, false⟩
    let passed :=
      { authorizer with credential := gathered.credential, nonRefreshable := gathered.nonRefreshable }
    if gathered.updatedTokens.isEmpty then (.completed gathered.refreshFailed, passed)
    else if !connection.generationIsCurrent 0 then (.discarded, passed)
    else
      (.completed gathered.refreshFailed,
        { passed with authorizationScopes := writeBack passed.authorizationScopes gathered.updatedTokens })

/-- The expiry times the loop watches: those of the paths outside `non_refreshable`. -/
def expirationTimes (authorizer : Authorizer σ) : List Int :=
  (authorizer.authorizationScopes.filter fun entry => decide (entry.1 ∉ authorizer.nonRefreshable)).map
    fun entry => entry.2.expiresOn

/-- The loop after a pass: `Stop` ends the task, a clean pass goes back to the top, a
failed or discarded one backs off first. -/
def afterPass : RefreshPass → RefresherPc
  | .stop => .stopped
  | .completed false => .top
  | .completed true => .sleeping (now + tokenRefreshRetryBackoff) none
  | .discarded => .sleeping (now + tokenRefreshRetryBackoff) none

/-- One step of `refresh_tokens` at `now`, `jitter` being the round's draw. -/
def refreshTokens (jitter : Int) (authorizer : Authorizer σ) : Authorizer σ :=
  match next authorizer.tokenRefreshBias (expirationTimes authorizer) jitter now
      authorizer.authorizationRefresher with
  | .park pc => { authorizer with authorizationRefresher := pc }
  | .pass bias =>
      let (outcome, passed) := refreshDueTokens credential connection now bias authorizer
      { passed with authorizationRefresher := afterPass now outcome }

@[simp] theorem getToken_apply (authorizer : Authorizer σ) :
    getToken credential now authorizer =
      .ok (credential authorizer.credential authorizationScope now).2
        { authorizer with credential := (credential authorizer.credential authorizationScope now).1 } := rfl

/-! ## A path marked non-refreshable keeps its token -/

structure Stuck (path : List Char) (token : AccessToken) (authorizer : Authorizer σ) : Prop where
  holds : SortedMap.get authorizer.authorizationScopes path = some token
  marked : path ∈ authorizer.nonRefreshable

variable {held : List Char} {token : AccessToken}

theorem not_mem_tokensToRefresh {authorizer : Authorizer σ} (bias : Int)
    (marked : held ∈ authorizer.nonRefreshable) : held ∉ (tokensToRefresh now authorizer bias).map Prod.fst := by
  intro member
  obtain ⟨due, dueMember, dueKey⟩ := List.mem_map.mp member
  obtain ⟨entry, -, produced⟩ := List.mem_filterMap.mp dueMember
  split_ifs at produced with skipped
  cases produced
  rw [← dueKey] at marked
  exact skipped marked

theorem refreshPath_keeps (gathered : Gathered σ) (entry : List Char × Int) (other : entry.1 ≠ held)
    (marked : held ∈ gathered.nonRefreshable) (unrefreshed : held ∉ gathered.updatedTokens.map Prod.fst) :
    held ∈ (refreshPath credential connection now gathered entry).nonRefreshable ∧
      held ∉ (refreshPath credential connection now gathered entry).updatedTokens.map Prod.fst := by
  obtain ⟨url, previousExpiry⟩ := entry
  simp only [refreshPath]
  split
  · exact ⟨marked, unrefreshed⟩
  · split_ifs
    · exact ⟨List.mem_insert_of_mem marked, unrefreshed⟩
    · split
      · exact ⟨marked, unrefreshed⟩
      · exact ⟨marked, SortedMap.not_mem_keys_insert (Ne.symm other) unrefreshed⟩

theorem foldl_refreshPath_keeps (due : List (List Char × Int)) (excluded : held ∉ due.map Prod.fst)
    (gathered : Gathered σ) (marked : held ∈ gathered.nonRefreshable)
    (unrefreshed : held ∉ gathered.updatedTokens.map Prod.fst) :
    held ∈ (due.foldl (refreshPath credential connection now) gathered).nonRefreshable ∧
      held ∉ (due.foldl (refreshPath credential connection now) gathered).updatedTokens.map Prod.fst := by
  induction due generalizing gathered with
  | nil => exact ⟨marked, unrefreshed⟩
  | cons entry rest induction =>
      simp only [List.map_cons, List.mem_cons, not_or] at excluded
      obtain ⟨stillMarked, stillUnrefreshed⟩ :=
        refreshPath_keeps credential connection now gathered entry (Ne.symm excluded.1) marked unrefreshed
      exact induction excluded.2 _ stillMarked stillUnrefreshed

theorem refreshDueTokens_keeps (bias : Int) {authorizer : Authorizer σ} (stuck : Stuck held token authorizer) :
    Stuck held token (refreshDueTokens credential connection now bias authorizer).2 := by
  obtain ⟨holds, marked⟩ := stuck
  obtain ⟨stillMarked, unrefreshed⟩ := foldl_refreshPath_keeps credential connection now
    (tokensToRefresh now authorizer bias) (not_mem_tokensToRefresh now bias marked)
    ⟨authorizer.credential, [], authorizer.nonRefreshable, false⟩ marked (by simp)
  simp only [refreshDueTokens]
  split_ifs
  · exact ⟨holds, marked⟩
  · exact ⟨holds, marked⟩
  · exact ⟨holds, stillMarked⟩
  · exact ⟨holds, stillMarked⟩
  · refine ⟨?_, stillMarked⟩
    rw [writeBack, SortedMap.get_foldl_insert_of_not_mem _ _ unrefreshed]
    exact holds

theorem refreshTokens_keeps (jitter : Int) {authorizer : Authorizer σ} (stuck : Stuck held token authorizer) :
    Stuck held token (refreshTokens credential connection now jitter authorizer) := by
  simp only [refreshTokens]
  split
  · exact ⟨stuck.holds, stuck.marked⟩
  · next bias _ =>
      have passed := refreshDueTokens_keeps credential connection now bias stuck
      revert passed
      cases refreshDueTokens credential connection now bias authorizer with
      | mk outcome passed => exact fun kept => ⟨kept.holds, kept.marked⟩

theorem getToken_keeps : Keeps (Stuck held token) (getToken credential now) := by
  intro authorizer stuck
  exact ⟨stuck.holds, stuck.marked⟩

theorem authorizeSlow_keeps {path : List Char} (other : path ≠ held) (attempt : Nat) :
    Keeps (Stuck held token) (authorizeSlow credential connection now path attempt) := by
  unfold authorizeSlow
  refine keeps_bind (getToken_keeps credential now) fun result => ?_
  refine keeps_bind (keeps_ofExcept _ result) fun fresh => ?_
  refine keeps_bind (keeps_ofExcept _ _) fun _ => ?_
  split
  · refine keeps_bind (keeps_modifyGet fun authorizer stuck => ?_) fun _ => ?_
    · split
      · exact stuck
      · refine ⟨?_, stuck.marked⟩
        rw [SortedMap.get_insert, if_neg (Ne.symm other)]
        exact stuck.holds
    · exact keeps_bind (keeps_modify fun _ stuck => ⟨stuck.holds, stuck.marked⟩) fun _ => keeps_pure _ _
  · exact keeps_pure _ _

theorem authorizeAttempt_keeps (path : List Char) (attempt : Nat) :
    Keeps (Stuck held token) (authorizeAttempt credential connection now path attempt) := by
  unfold authorizeAttempt
  apply keeps_get_bind
  intro authorizer stuck
  cases found : SortedMap.get authorizer.authorizationScopes path with
  | some _ => exact stuck
  | none =>
      have other : path ≠ held := by
        rintro rfl
        rw [stuck.holds] at found
        cases found
      exact authorizeSlow_keeps credential connection now other attempt authorizer stuck

theorem authorizeRounds_keeps (path : List Char) (rounds attempt : Nat) :
    Keeps (Stuck held token) (authorizeRounds credential connection now path rounds attempt) := by
  induction rounds generalizing attempt with
  | zero => exact keeps_throw _ _
  | succ rounds induction =>
      rw [authorizeRounds]
      apply keeps_bind (authorizeAttempt_keeps credential connection now path attempt)
      intro found
      cases found with
      | some _ => exact keeps_pure _ _
      | none => exact induction (attempt + 1)

/-! ## Steps on a first authorization -/

theorem authorizePath_of_missing {path : List Char} {authorizer : Authorizer σ}
    (missing : SortedMap.get authorizer.authorizationScopes path = none) {state : σ}
    (issued : credential authorizer.credential authorizationScope now = (state, .ok token))
    (accepted : connection.performAuthorization path token = .ok ()) (current : connection.generationIsCurrent 0 = true) :
    authorizePath credential connection now path authorizer =
      .ok token
        { authorizer with
          authorizationScopes := SortedMap.insert authorizer.authorizationScopes path token
          authorizationRefresher := authorizer.authorizationRefresher.getOrInit
          credential := state } := by
  rw [authorizePath, maxGenerationRetries, authorizeRounds]
  simp only [authorizeAttempt, authorizeSlow, bind_apply, get_apply, missing, getToken_apply, issued,
    ofExcept_ok, accepted, current, if_true, modifyGet_apply, modify_apply, pure_apply]

theorem refreshTokens_of_park {jitter : Int} {authorizer : Authorizer σ} {pc : RefresherPc}
    (parks : next authorizer.tokenRefreshBias (expirationTimes authorizer) jitter now
      authorizer.authorizationRefresher = .park pc) :
    refreshTokens credential connection now jitter authorizer = { authorizer with authorizationRefresher := pc } := by
  simp only [refreshTokens, parks]

theorem refreshTokens_of_pass {jitter bias : Int} {authorizer : Authorizer σ}
    (passes : next authorizer.tokenRefreshBias (expirationTimes authorizer) jitter now
      authorizer.authorizationRefresher = .pass bias) :
    refreshTokens credential connection now jitter authorizer =
      { (refreshDueTokens credential connection now bias authorizer).2 with
        authorizationRefresher := afterPass now (refreshDueTokens credential connection now bias authorizer).1 } := by
  simp only [refreshTokens, passes]

theorem authorizePath_keeps (path : List Char) :
    Keeps (Stuck held token) (authorizePath credential connection now path) :=
  authorizeRounds_keeps credential connection now path _ _

end Authorizer

variable {σ : Type} (credential : TokenCredential σ)

/-- Clients calling `authorize_path` and the refresher taking steps, in any order. -/
def run : System (Authorizer σ) → List (Event Connection) → System (Authorizer σ) :=
  System.run (fun connection now path authorizer =>
      final (Authorizer.authorizePath credential connection now path authorizer))
    (fun connection jitter now authorizer => Authorizer.refreshTokens credential connection now jitter authorizer)

open Authorizer in
theorem run_keeps_stuck {held : List Char} {token : AccessToken} (events : List (Event Connection))
    (system : System (Authorizer σ)) (stuck : Stuck held token system.authorizer) :
    Stuck held token (run credential system events).authorizer :=
  System.run_preserves _ _ (Stuck held token)
    (fun connection now path _ stuck => authorizePath_keeps credential connection now path _ stuck)
    (fun connection jitter now _ stuck => refreshTokens_keeps credential connection now jitter stuck)
    events system stuck

/-! ## A caching credential -/

namespace Authorizer

variable {ρ : Type} (callback : TokenCredential ρ) (connection : Connection) (now : Int)
  {cache : TokenCache} {state : ρ} {token : AccessToken}

theorem refreshPath_of_fresh {gathered : Gathered (TokenCache × ρ)} (holds : gathered.credential = (cache, state))
    (cached : SortedMap.get cache.tokens authorizationScope = some token) (fresh : now + 300000 < token.expiresOn)
    {url : List Char} {previousExpiry : Int} (unadvanced : token.expiresOn ≤ previousExpiry) :
    refreshPath (TokenCache.getToken callback) connection now gathered (url, previousExpiry) =
      { gathered with nonRefreshable := gathered.nonRefreshable.insert url } := by
  obtain ⟨credential, updatedTokens, nonRefreshable, refreshFailed⟩ := gathered
  simp only at holds
  subst holds
  simp only [refreshPath, TokenCache.getToken_of_fresh callback cached fresh, if_pos unadvanced]

theorem foldl_refreshPath_of_fresh (cached : SortedMap.get cache.tokens authorizationScope = some token)
    (fresh : now + 300000 < token.expiresOn) (due : List (List Char × Int))
    (unadvanced : ∀ entry ∈ due, token.expiresOn ≤ entry.2) (gathered : Gathered (TokenCache × ρ))
    (holds : gathered.credential = (cache, state)) :
    due.foldl (refreshPath (TokenCache.getToken callback) connection now) gathered =
      { gathered with
        nonRefreshable := due.foldl (fun marked entry => marked.insert entry.1) gathered.nonRefreshable } := by
  induction due generalizing gathered with
  | nil => rfl
  | cons entry rest induction =>
      obtain ⟨url, previousExpiry⟩ := entry
      rw [List.foldl_cons, List.foldl_cons,
        refreshPath_of_fresh callback connection now holds cached fresh (unadvanced _ List.mem_cons_self),
        induction (fun other member => unadvanced other (List.mem_cons_of_mem _ member))
          { gathered with nonRefreshable := gathered.nonRefreshable.insert url } holds]

theorem refreshDueTokens_of_fresh {authorizer : Authorizer (TokenCache × ρ)}
    (holds : authorizer.credential = (cache, state))
    (cached : SortedMap.get cache.tokens authorizationScope = some token) (fresh : now + 300000 < token.expiresOn)
    (bias : Int) (unadvanced : ∀ entry ∈ tokensToRefresh now authorizer bias, token.expiresOn ≤ entry.2)
    (upgrades : connection.upgrades = true) :
    refreshDueTokens (TokenCache.getToken callback) connection now bias authorizer =
      (.completed false,
        { authorizer with
          nonRefreshable := (tokensToRefresh now authorizer bias).foldl (fun marked entry => marked.insert entry.1)
            authorizer.nonRefreshable }) := by
  simp only [refreshDueTokens]
  rw [foldl_refreshPath_of_fresh callback connection now cached fresh _ unadvanced _ holds]
  cases tokensToRefresh now authorizer bias with
  | nil => rfl
  | cons entry rest => simp [upgrades]

end Authorizer

def issuedFor (lifetime : Int) : TokenCredential Unit :=
  fun _ _ now => ((), .ok ⟨"token".toList, now + lifetime⟩)

def Connection.live : Connection := ⟨true, fun _ _ => .ok (), fun _ => true⟩

/-- A path's first authorization, the refresher's first round, time up to `late` past
that round's refresh time, and the pass there. -/
def firstRefresh (path : List Char) (lifetime jitter : Int) (late : Nat) : List (Event Connection) :=
  [.authorizePath path .live, .refresh jitter .live,
    .wait (lifetime - (tokenRefreshBias + jitter) + late).toNat, .refresh jitter .live]

open Authorizer in
theorem firstRefresh_stuck {lifetime start jitter : Int} {late : Nat} (path : List Char)
    (long : 3600000 ≤ lifetime) (drawn : TokenRefreshTimes.default.Draws jitter) (prompt : 0 < late)
    (early : late < 55000) :
    Stuck path ⟨"token".toList, start + lifetime⟩
      (run (TokenCache.getToken (issuedFor lifetime)) ⟨start, new (TokenCache.new, ())⟩
        (firstRefresh path lifetime jitter late)).authorizer := by
  obtain ⟨biasLow, biasHigh⟩ := bias_bounds drawn
  have defaultBias : TokenRefreshTimes.default.beforeExpirationRefreshTime = Messaging.tokenRefreshBias := rfl
  rw [defaultBias] at biasLow biasHigh
  set token : AccessToken := ⟨"token".toList, start + lifetime⟩
  set bias := Messaging.tokenRefreshBias + jitter
  set cached : TokenCache × Unit := (⟨[(authorizationScope, token)]⟩, ())
  set woken := start + (lifetime - bias + late)
  have authorized : final (authorizePath (TokenCache.getToken (issuedFor lifetime)) .live start path
      (new (TokenCache.new, ()))) = ⟨[(path, token)], .top, .default, cached, []⟩ := by
    rw [authorizePath_of_missing _ _ _ rfl rfl rfl rfl]
    rfl
  have asleep : refreshTokens (TokenCache.getToken (issuedFor lifetime)) .live start jitter
      ⟨[(path, token)], .top, .default, cached, []⟩ =
      ⟨[(path, token)], .sleeping (start + lifetime - bias) (some bias), .default, cached, []⟩ := by
    apply refreshTokens_of_park
    have ahead : start < start + lifetime - bias := by omega
    have watched : expirationTimes (⟨[(path, token)], .top, .default, cached, []⟩ :
        Authorizer (TokenCache × Unit)) = [start + lifetime] := rfl
    rw [watched]
    simp only [next, wake_single, defaultBias]
    rw [if_pos ahead]
  have waited : start + ((lifetime - (Messaging.tokenRefreshBias + jitter) + late).toNat : Int) = woken := by
    rw [Int.toNat_of_nonneg (by omega)]
  have woke : refreshTokens (TokenCache.getToken (issuedFor lifetime)) .live woken jitter
      ⟨[(path, token)], .sleeping (start + lifetime - bias) (some bias), .default, cached, []⟩ =
      ⟨[(path, token)], .top, .default, cached, [path]⟩ := by
    have wakes : start + lifetime - bias ≤ woken := by omega
    have listed : tokensToRefresh woken
        ⟨[(path, token)], .sleeping (start + lifetime - bias) (some bias), .default, cached, []⟩ bias =
        [(path, start + lifetime)] := by
      have notYet : ¬ woken + bias ≤ start + lifetime := by omega
      simp [tokensToRefresh, token, notYet]
    have fresh : woken + 300000 < token.expiresOn := by
      simp only [token]
      omega
    rw [@refreshTokens_of_pass _ _ _ _ _ bias _ (by simp only [next, if_pos wakes]),
      refreshDueTokens_of_fresh _ _ _ rfl (by simp [cached, SortedMap.get]) fresh bias
        (by rw [listed]; simp [token]) rfl,
      listed]
    rfl
  simp only [run, firstRefresh, System.run_cons, System.run_nil, System.step, authorized, asleep, waited]
  rw [woke]
  exact ⟨by simp [SortedMap.get], List.mem_singleton_self path⟩

open Authorizer in
/-- With an `azure_identity` credential whose endpoint issues tokens for at least an hour,
the refresher's pass after a first authorization, when it wakes up to 55 s late, gets the
cached token back unchanged and marks the path non-refreshable; whatever happens next,
no call and no refresher step replaces that path's token. -/
theorem caching_credential_path_never_renewed (lifetime start jitter : Int) (late : Nat) (path : List Char)
    (long : 3600000 ≤ lifetime) (drawn : TokenRefreshTimes.default.Draws jitter) (prompt : 0 < late)
    (early : late < 55000) (later : List (Event Connection)) :
    Stuck path ⟨"token".toList, start + lifetime⟩
      (run (TokenCache.getToken (issuedFor lifetime)) ⟨start, new (TokenCache.new, ())⟩
        (firstRefresh path lifetime jitter late ++ later)).authorizer := by
  rw [run, System.run_append]
  exact run_keeps_stuck _ later _ (firstRefresh_stuck path long drawn prompt early)

theorem caching_credential_path_expires_after_one_hour :
    (3600000 : Int) ≤ 3600000 ∧ TokenRefreshTimes.default.Draws 0 ∧ (0 : Nat) < 1 ∧ (1 : Nat) < 55000 ∧
      (run (TokenCache.getToken (issuedFor 3600000)) ⟨0, Authorizer.new (TokenCache.new, ())⟩
        (firstRefresh "p".toList 3600000 0 1 ++ [.wait 359999])).clock = 3600000 ∧
      Authorizer.Stuck "p".toList ⟨"token".toList, 0 + 3600000⟩
        (run (TokenCache.getToken (issuedFor 3600000)) ⟨0, Authorizer.new (TokenCache.new, ())⟩
          (firstRefresh "p".toList 3600000 0 1 ++ [.wait 359999])).authorizer :=
  ⟨le_refl _, by decide, Nat.one_pos, by decide, rfl,
    caching_credential_path_never_renewed 3600000 0 0 1 "p".toList (le_refl _) (by decide) Nat.one_pos
      (by decide) [.wait 359999]⟩

end EventHubs
