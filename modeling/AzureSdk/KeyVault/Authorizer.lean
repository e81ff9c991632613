import Mathlib
import AzureSdk.Lib.EState
import AzureSdk.Lib.Text
import AzureSdk.Core.BearerToken

/-!
# Key Vault challenge authentication

A Key Vault client's pipeline runs `BearerTokenAuthorizationPolicy` with
`KeyVaultAuthorizer` as both of its callbacks. Until a scope is known, `on_request`
sends the request without its body, to draw a 401 challenge; `on_challenge` parses the
challenge's scope, stores it in the authorizer's shared scope, checks that the
request's host ends with `.` and the scope's host, restores the body and authorizes
the retried request. Every later request is authorized by `on_request` for the stored
scope.

`on_challenge` stores the scope before it checks it, so a challenge that fails the
check still replaces the scope every later request is authorized for.

The pipeline's state is the stored scope, the token cache, the credential's and the
transport's states, and the list of requests passed to the next policy. `Url::parse`
and `host_str` of the `url` crate are a parameter, `urlHost`; resetting a body before
the retry is taken to succeed.
-/

namespace KeyVault

open AzureCore EState

set_option autoImplicit false

/-! ## Parsing the challenge -/

def dropBytes : List Char → Nat → Option (List Char)
  | text, 0 => some text
  | [], _ + 1 => none
  | c :: rest, n + 1 => if c.utf8Size ≤ n + 1 then dropBytes rest (n + 1 - c.utf8Size) else none

def takeBytes : List Char → Nat → Option (List Char)
  | _, 0 => some []
  | [], _ + 1 => none
  | c :: rest, n + 1 =>
      if c.utf8Size ≤ n + 1 then (takeBytes rest (n + 1 - c.utf8Size)).map (c :: ·) else none

/-- `str::get(start..stop)` on byte offsets. -/
def getBytes (text : List Char) (start stop : Nat) : Option (List Char) :=
  if start ≤ stop then (dropBytes text start).bind (takeBytes · (stop - start)) else none

def scopeAt (challenge : List Char) (i : Nat) (after : List Char) : Option (List Char) :=
  match getBytes challenge (i - 8) i with
  | none => none
  | some sub =>
      if "scope".toList.isSuffixOf sub || sub == "resource".toList then
        if '"' ∈ after then
          let value := after.takeWhile (· != '"')
          some (if "scope".toList.isSuffixOf sub then value else value ++ "/.default".toList)
        else none
      else none

/-- The loop over `match_indices` of `="`, at byte `i` with `rest` still to scan. -/
def scanChallenge (challenge : List Char) : List Char → Nat → Option (List Char)
  | [], _ => none
  | c :: rest, i =>
      if c = '=' ∧ rest.head? = some '"' then
        match scopeAt challenge i rest.tail with
        | some scope => some scope
        | none => scanChallenge challenge rest (i + 1)
      else scanChallenge challenge rest (i + c.utf8Size)

def noScope (challenge : List Char) : Error :=
  ⟨.dataConversion, "no scope or resource in authentication challenge: ".toList ++ challenge⟩

def parseScopeFromChallenge (challenge : List Char) : Except Error (List Char) :=
  match scanChallenge challenge challenge 0 with
  | some scope => .ok scope
  | none => .error (noScope challenge)

example : parseScopeFromChallenge
    ("Bearer authorization=\"https://login.microsoftonline.com/tenant\", " ++
      "scope=\"https://vault.azure.net/.default\"").toList = .ok "https://vault.azure.net/.default".toList := by
  decide

example : parseScopeFromChallenge
    ("Bearer authorization=\"https://login.microsoftonline.com/tenant\", " ++
      "resource=\"https://vault.azure.net\"").toList = .ok "https://vault.azure.net/.default".toList := by
  decide

/-! ## The pipeline -/

structure KeyVaultAuthorizer where
  scope : List Char
  verifyChallengeResource : Bool

def KeyVaultAuthorizer.new (verifyChallengeResource : Bool) : KeyVaultAuthorizer :=
  ⟨[], verifyChallengeResource⟩

structure Pipeline (σ τ : Type) where
  keyVault : KeyVaultAuthorizer
  authorizer : BearerTokenAuthorizer σ
  server : τ
  /-- The requests passed to the next policy, oldest first. -/
  sent : List Request

def Pipeline.new {σ τ : Type} (verifyChallengeResource : Bool) (credential : σ) (server : τ) :
    Pipeline σ τ :=
  ⟨.new verifyChallengeResource, .new credential, server, []⟩

abbrev Transport (τ : Type) := τ → Request → τ × Except Error Response

def headerNotFound : Error := ⟨.dataConversion, "header not found www-authenticate".toList⟩

def invalidAudience (challenge : List Char) : Error :=
  ⟨.dataConversion, "invalid audience in challenge: ".toList ++ challenge⟩

def invalidRequestUrl (url : Url) : Error :=
  ⟨.dataConversion, "invalid request URL: ".toList ++ url.text⟩

def resourceMismatch (scope requestHost : List Char) : Error :=
  ⟨.other, "challenge resource '".toList ++ scope ++ "' doesn't match the requested domain '".toList ++
    requestHost ++ ("'. Set verify_challenge_resource in client options to disable this validation " ++
    "if necessary. See https://aka.ms/azsdk/blog/vault-uri for more information`").toList⟩

def lengthUnknown : Error := ⟨.io, "length unknown".toList⟩

def nonTls : Error := ⟨.other, "authorized requests are not permitted for non-TLS protected endpoints".toList⟩

/-- The check of `on_challenge`: the scope's host `c` exists and the request host ends with `.c`. -/
def challengeMatches (urlHost : List Char → Option (List Char)) (host : Option (List Char))
    (scope : List Char) : Bool :=
  match urlHost scope, host with
  | some challengeHost, some requestHost => ('.' :: challengeHost).isSuffixOf requestHost
  | _, _ => false

section

variable {σ τ : Type} (credential : TokenCredential σ) (urlHost : List Char → Option (List Char))
  (transport : Transport τ) (now : Int)

def withAuthorizer {α : Type} (action : EStateM Error (BearerTokenAuthorizer σ) α) :
    EStateM Error (Pipeline σ τ) α := fun pipeline =>
  match action pipeline.authorizer with
  | .ok a authorizer => .ok a { pipeline with authorizer }
  | .error e authorizer => .error e { pipeline with authorizer }

def forward (request : Request) : EStateM Error (Pipeline σ τ) Response := fun pipeline =>
  let (server, result) := transport pipeline.server request
  let pipeline := { pipeline with server, sent := pipeline.sent ++ [request] }
  match result with
  | .ok response => .ok response pipeline
  | .error e => .error e pipeline

/-- `KeyVaultAuthorizer::on_request`; the context is the `Body` it may hold. -/
def onRequest (context : Option Body) (request : Request) :
    EStateM Error (Pipeline σ τ) (Option Body × Request) := do
  let scope := (← get).keyVault.scope
  if scope.isEmpty then
    if request.body.isEmpty != some true then
      pure (some request.body,
        { request with body := request.body.take, contentLength := none, contentType := none })
    else pure (context, request)
  else
    let request ← withAuthorizer (BearerTokenAuthorizer.authorize credential now request [scope])
    pure (context, request)

/-- The check `on_challenge` makes when `verify_challenge_resource` is set. -/
def checkChallengeResource (verify : Bool) (challenge scope : List Char) (url : Url) : Except Error Unit :=
  if verify then
    match urlHost scope with
    | none => .error (invalidAudience challenge)
    | some challengeHost =>
        match url.host with
        | none => .error (invalidRequestUrl url)
        | some requestHost =>
            if ('.' :: challengeHost).isSuffixOf requestHost then .ok ()
            else .error (resourceMismatch scope requestHost)
  else .ok ()

/-- The body `on_request` saved in the context, put back with its headers. -/
def restoreBody (context : Option Body) (request : Request) : Except Error Request :=
  match context with
  | none => .ok request
  | some saved =>
      match saved.len with
      | none => .error lengthUnknown
      | some length =>
          .ok { request with
            body := saved
            contentLength := some (Text.showNat length)
            contentType := some "application/json".toList }

def onChallenge (context : Option Body) (request : Request) (response : Response) :
    EStateM Error (Pipeline σ τ) Request := do
  let challenge ← orThrow headerNotFound response.wwwAuthenticate
  let scope ← ofExcept (parseScopeFromChallenge challenge)
  modify fun pipeline => { pipeline with keyVault := { pipeline.keyVault with scope } }
  let verify := (← get).keyVault.verifyChallengeResource
  ofExcept (checkChallengeResource urlHost verify challenge scope request.url)
  let request ← ofExcept (restoreBody context request)
  withAuthorizer (BearerTokenAuthorizer.authorize credential now request [scope])

/-- What `send` does with the first response: a 401 empties the cache and, when it carries a
challenge, the request is retried after `on_challenge`. -/
def handleResponse (context : Option Body) (request : Request) (response : Response) :
    EStateM Error (Pipeline σ τ) Response :=
  if response.status = 401 then do
    withAuthorizer BearerTokenAuthorizer.invalidateCache
    if response.wwwAuthenticate.isSome then
      let request ← onChallenge credential urlHost now context request response
      forward transport request
    else pure response
  else pure response

/-- `BearerTokenAuthorizationPolicy::send` with the Key Vault callbacks. -/
def send (context : Option Body) (request : Request) : EStateM Error (Pipeline σ τ) Response := do
  if request.url.scheme != "https".toList then throw nonTls
  let (context, request) ← onRequest credential now context request
  let response ← forward transport request
  handleResponse credential urlHost transport now context request response

@[simp] theorem withAuthorizer_apply {α : Type} (action : EStateM Error (BearerTokenAuthorizer σ) α)
    (pipeline : Pipeline σ τ) :
    withAuthorizer action pipeline =
      match action pipeline.authorizer with
      | .ok a authorizer => .ok a { pipeline with authorizer }
      | .error e authorizer => .error e { pipeline with authorizer } := rfl

@[simp] theorem forward_apply (request : Request) (pipeline : Pipeline σ τ) :
    forward transport request pipeline =
      match (transport pipeline.server request).2 with
      | .ok response => .ok response
          { pipeline with server := (transport pipeline.server request).1, sent := pipeline.sent ++ [request] }
      | .error e => .error e
          { pipeline with server := (transport pipeline.server request).1, sent := pipeline.sent ++ [request] } :=
  rfl

theorem final_withAuthorizer {α : Type} (action : EStateM Error (BearerTokenAuthorizer σ) α)
    (pipeline : Pipeline σ τ) :
    final (withAuthorizer action pipeline) = { pipeline with authorizer := final (action pipeline.authorizer) } := by
  rw [withAuthorizer_apply]
  cases action pipeline.authorizer <;> rfl

theorem onChallenge_frame (context : Option Body) (request : Request) (response : Response)
    (pipeline : Pipeline σ τ) :
    (final (onChallenge credential urlHost now context request response pipeline)).sent = pipeline.sent ∧
      (final (onChallenge credential urlHost now context request response pipeline)).server =
        pipeline.server := by
  simp only [onChallenge, bind_apply, modify_apply, get_apply]
  rcases response.wwwAuthenticate with _ | challenge
  · simp
  cases parsed : parseScopeFromChallenge challenge with
  | error e => simp [parsed]
  | ok scope =>
      cases checked : checkChallengeResource urlHost pipeline.keyVault.verifyChallengeResource challenge scope
        request.url with
      | error e => simp [parsed, checked]
      | ok _ =>
          cases restored : restoreBody context request with
          | error e => simp [parsed, checked]
          | ok retried =>
              simp only [orThrow_some, ofExcept_ok, parsed, checked]
              rw [final_withAuthorizer]
              exact ⟨rfl, rfl⟩

theorem onChallenge_of_parsed {context : Option Body} {request : Request} {response : Response}
    {challenge scope : List Char} (header : response.wwwAuthenticate = some challenge)
    (parsed : parseScopeFromChallenge challenge = .ok scope) (pipeline : Pipeline σ τ) :
    onChallenge credential urlHost now context request response pipeline =
      (do
        MonadExcept.ofExcept (checkChallengeResource urlHost pipeline.keyVault.verifyChallengeResource
          challenge scope request.url)
        let request ← MonadExcept.ofExcept (restoreBody context request)
        withAuthorizer (BearerTokenAuthorizer.authorize credential now request [scope]) :
          EStateM Error (Pipeline σ τ) Request)
        { pipeline with keyVault := { pipeline.keyVault with scope } } := by
  simp only [onChallenge, bind_apply, header, parsed, orThrow_some, ofExcept_ok, modify_apply, get_apply]

theorem checkChallengeResource_eq_ok (challenge scope : List Char) (url : Url) :
    checkChallengeResource urlHost true challenge scope url = .ok () ↔
      challengeMatches urlHost url.host scope = true := by
  unfold checkChallengeResource challengeMatches
  rcases urlHost scope with _ | challengeHost
  · simp
  · rcases url.host with _ | requestHost
    · simp
    · by_cases suffix : ('.' :: challengeHost).isSuffixOf requestHost = true <;> simp [suffix]

theorem onChallenge_of_mismatch {context : Option Body} {request : Request} {response : Response}
    {pipeline : Pipeline σ τ} {challenge scope : List Char}
    (header : response.wwwAuthenticate = some challenge) (parsed : parseScopeFromChallenge challenge = .ok scope)
    (verifying : pipeline.keyVault.verifyChallengeResource = true)
    (mismatch : challengeMatches urlHost request.url.host scope = false) :
    ∃ e, onChallenge credential urlHost now context request response pipeline =
      .error e { pipeline with keyVault := { pipeline.keyVault with scope } } := by
  rw [onChallenge_of_parsed credential urlHost now header parsed, verifying]
  cases checked : checkChallengeResource urlHost true challenge scope request.url with
  | error e => exact ⟨e, by simp⟩
  | ok u =>
      have accepted : challengeMatches urlHost request.url.host scope = true :=
        (checkChallengeResource_eq_ok urlHost challenge scope request.url).mp checked
      rw [mismatch] at accepted
      cases accepted

theorem onRequest_of_empty (context : Option Body) (request : Request) {pipeline : Pipeline σ τ}
    (empty : pipeline.keyVault.scope = []) :
    ∃ saved stripped, onRequest credential now context request pipeline = .ok (saved, stripped) pipeline ∧
      stripped.url = request.url ∧ stripped.body.isEmpty = some true ∧
      stripped.authorization = request.authorization := by
  simp only [onRequest, bind_apply, get_apply, empty, List.isEmpty_nil, if_true]
  by_cases unknown : (request.body.isEmpty != some true) = true
  · refine ⟨some request.body, { request with
        body := request.body.take
        contentLength := none
        contentType := none }, ?_, rfl, Body.isEmpty_take _, rfl⟩
    rw [if_pos unknown]
    rfl
  · have known : request.body.isEmpty = some true := by simpa using unknown
    refine ⟨context, request, ?_, rfl, known, rfl⟩
    rw [if_neg unknown]
    rfl

theorem onRequest_of_stored (context : Option Body) (request : Request) {pipeline : Pipeline σ τ}
    {state : σ} {token : AccessToken} (stored : pipeline.keyVault.scope ≠ [])
    (empty : pipeline.authorizer.accessToken = none)
    (granted : credential pipeline.authorizer.credential [pipeline.keyVault.scope] now = (state, .ok token)) :
    onRequest credential now context request pipeline =
      .ok (context, { request with authorization := some ⟨token, [pipeline.keyVault.scope]⟩ })
        { pipeline with authorizer := ⟨some ⟨token, [pipeline.keyVault.scope]⟩, state⟩ } := by
  have notEmpty : pipeline.keyVault.scope.isEmpty = false := List.isEmpty_eq_false_iff.mpr stored
  simp only [onRequest, bind_apply, get_apply, notEmpty, Bool.false_eq_true, if_false, withAuthorizer_apply,
    BearerTokenAuthorizer.authorize_of_empty credential now empty granted, pure_apply]

theorem send_stores_rejected_scope {context : Option Body} {request : Request} {pipeline : Pipeline σ τ}
    {challenge scope : List Char} (https : request.url.scheme = "https".toList)
    (empty : pipeline.keyVault.scope = []) (verifying : pipeline.keyVault.verifyChallengeResource = true)
    (challenges : ∀ server forwarded, (transport server forwarded).2 = .ok ⟨401, some challenge⟩)
    (parsed : parseScopeFromChallenge challenge = .ok scope)
    (mismatch : challengeMatches urlHost request.url.host scope = false) :
    (final (send credential urlHost transport now context request pipeline)).keyVault.scope = scope ∧
      (final (send credential urlHost transport now context request pipeline)).authorizer =
        { pipeline.authorizer with accessToken := none } := by
  obtain ⟨saved, stripped, requested, sameUrl, -, -⟩ := onRequest_of_empty credential now context request empty
  obtain ⟨e, rejected⟩ := @onChallenge_of_mismatch σ τ credential urlHost now saved stripped
    ⟨401, some challenge⟩
    ⟨pipeline.keyVault, ⟨none, pipeline.authorizer.credential⟩, (transport pipeline.server stripped).1,
      pipeline.sent ++ [stripped]⟩ challenge scope rfl parsed verifying (by rw [sameUrl]; exact mismatch)
  simp only [send, handleResponse, bind_apply, https, bne_self_eq_false, Bool.false_eq_true, if_false, if_true,
    requested, forward_apply, challenges, withAuthorizer_apply, BearerTokenAuthorizer.invalidateCache_apply,
    Option.isSome_some, rejected, final_error]
  exact ⟨trivial, trivial⟩

theorem final_forward (request : Request) (pipeline : Pipeline σ τ) :
    final (forward transport request pipeline) =
      { pipeline with server := (transport pipeline.server request).1, sent := pipeline.sent ++ [request] } := by
  rw [forward_apply]
  cases (transport pipeline.server request).2 <;> rfl

theorem forward_keeps_sent (sent : List Request) (request : Request) :
    Keeps (fun later : Pipeline σ τ => sent <+: later.sent) (forward transport request) := by
  intro later earlier
  rw [final_forward]
  exact earlier.trans (List.prefix_append _ _)

theorem handleResponse_keeps_sent (sent : List Request) (context : Option Body) (request : Request)
    (response : Response) :
    Keeps (fun later : Pipeline σ τ => sent <+: later.sent)
      (handleResponse credential urlHost transport now context request response) := by
  unfold handleResponse
  split
  · apply keeps_bind
    · intro later earlier
      rw [final_withAuthorizer]
      exact earlier
    intro _
    split
    · apply keeps_bind
      · intro later earlier
        rw [(onChallenge_frame credential urlHost now context request response later).1]
        exact earlier
      exact forward_keeps_sent transport sent
    · exact keeps_pure _ _
  · exact keeps_pure _ _

theorem send_forwards_stored_scope {context : Option Body} {request : Request} {pipeline : Pipeline σ τ}
    {state : σ} {token : AccessToken} (https : request.url.scheme = "https".toList)
    (stored : pipeline.keyVault.scope ≠ []) (empty : pipeline.authorizer.accessToken = none)
    (granted : credential pipeline.authorizer.credential [pipeline.keyVault.scope] now = (state, .ok token)) :
    { request with authorization := some ⟨token, [pipeline.keyVault.scope]⟩ } ∈
      (final (send credential urlHost transport now context request pipeline)).sent := by
  have passed : ∀ after : Pipeline σ τ,
      final (forward transport { request with authorization := some ⟨token, [pipeline.keyVault.scope]⟩ }
        { pipeline with authorizer := ⟨some ⟨token, [pipeline.keyVault.scope]⟩, state⟩ }) = after →
      pipeline.sent ++ [{ request with authorization := some ⟨token, [pipeline.keyVault.scope]⟩ }] <+:
        after.sent := by
    intro after forwarded
    rw [← forwarded, final_forward]
  simp only [send, bind_apply, https, bne_self_eq_false, Bool.false_eq_true, if_false,
    onRequest_of_stored credential now context request stored empty granted]
  refine List.IsPrefix.subset (?_ : pipeline.sent ++
    [{ request with authorization := some ⟨token, [pipeline.keyVault.scope]⟩ }] <+: _)
    (List.mem_append_right _ (List.mem_singleton_self _))
  split
  · rename_i response after forwarded
    apply handleResponse_keeps_sent credential urlHost transport now _ context _ response after
    apply passed
    rw [forwarded]
    rfl
  · rename_i e after forwarded
    apply passed
    rw [forwarded]

structure Call where
  context : Option Body
  request : Request
  now : Int

def run (calls : List Call) (pipeline : Pipeline σ τ) : Pipeline σ τ :=
  calls.foldl (fun pipeline call =>
    final (send credential urlHost transport call.now call.context call.request pipeline)) pipeline

def CacheFollowsScope (pipeline : Pipeline σ τ) : Prop :=
  ∀ cached, pipeline.authorizer.accessToken = some cached → cached.scopes = [pipeline.keyVault.scope]

theorem cacheFollowsScope_of_empty {pipeline : Pipeline σ τ} (empty : pipeline.authorizer.accessToken = none) :
    CacheFollowsScope pipeline := by
  intro cached held
  rw [empty] at held
  cases held

theorem withAuthorizer_authorize_cache (request : Request) {pipeline : Pipeline σ τ}
    (good : CacheFollowsScope pipeline) :
    CacheFollowsScope (final (withAuthorizer
      (BearerTokenAuthorizer.authorize credential now request [pipeline.keyVault.scope]) pipeline)) := by
  rw [final_withAuthorizer]
  intro cached held
  rcases BearerTokenAuthorizer.authorize_cache credential now request [pipeline.keyVault.scope]
    pipeline.authorizer with kept | ⟨token, fresh⟩
  · exact good cached (kept ▸ held)
  · rw [fresh] at held
    cases held
    rfl

theorem onRequest_cache (context : Option Body) (request : Request) {pipeline : Pipeline σ τ}
    (good : CacheFollowsScope pipeline) :
    CacheFollowsScope (final (onRequest credential now context request pipeline)) := by
  simp only [onRequest, bind_apply, get_apply]
  split
  · split
    · exact good
    · exact good
  · simp only [bind_apply]
    have authorized := withAuthorizer_authorize_cache credential now request good
    revert authorized
    cases withAuthorizer (BearerTokenAuthorizer.authorize credential now request [pipeline.keyVault.scope])
      pipeline <;> exact id

theorem onChallenge_cache (context : Option Body) (request : Request) (response : Response)
    {pipeline : Pipeline σ τ} (empty : pipeline.authorizer.accessToken = none) :
    CacheFollowsScope (final (onChallenge credential urlHost now context request response pipeline)) := by
  cases header : response.wwwAuthenticate with
  | none =>
      simp only [onChallenge, bind_apply, header, orThrow_none, final_error]
      exact cacheFollowsScope_of_empty empty
  | some challenge =>
      cases parsed : parseScopeFromChallenge challenge with
      | error e =>
          simp only [onChallenge, bind_apply, header, parsed, orThrow_some, ofExcept_error, final_error]
          exact cacheFollowsScope_of_empty empty
      | ok scope =>
          rw [onChallenge_of_parsed credential urlHost now header parsed]
          have stored : CacheFollowsScope
              ({ pipeline with keyVault := { pipeline.keyVault with scope } } : Pipeline σ τ) :=
            cacheFollowsScope_of_empty empty
          simp only [bind_apply]
          cases checkChallengeResource urlHost pipeline.keyVault.verifyChallengeResource challenge scope
            request.url with
          | error e => exact stored
          | ok _ =>
              cases restoreBody context request with
              | error e => exact stored
              | ok retried => exact withAuthorizer_authorize_cache credential now retried stored

theorem handleResponse_cache (context : Option Body) (request : Request) (response : Response)
    {pipeline : Pipeline σ τ} (good : CacheFollowsScope pipeline) :
    CacheFollowsScope (final (handleResponse credential urlHost transport now context request response pipeline)) := by
  unfold handleResponse
  split
  · simp only [bind_apply, withAuthorizer_apply, BearerTokenAuthorizer.invalidateCache_apply]
    split
    · -- the cache was emptied before `on_challenge` runs
      have challenged := @onChallenge_cache σ τ credential urlHost now context request response
        { pipeline with authorizer := { pipeline.authorizer with accessToken := none } } rfl
      simp only [bind_apply]
      revert challenged
      cases onChallenge credential urlHost now context request response
          { pipeline with authorizer := { pipeline.authorizer with accessToken := none } } with
      | ok retried after =>
          intro challenged
          dsimp only
          rw [final_forward]
          exact challenged
      | error e after => exact id
    · exact cacheFollowsScope_of_empty rfl
  · exact good

theorem send_cache (context : Option Body) (request : Request) {pipeline : Pipeline σ τ}
    (good : CacheFollowsScope pipeline) :
    CacheFollowsScope (final (send credential urlHost transport now context request pipeline)) := by
  unfold send
  dsimp only
  split
  · exact good
  · simp only [bind_apply]
    have prepared := onRequest_cache credential now context request good
    revert prepared
    cases onRequest credential now context request pipeline with
    | ok result after =>
        intro prepared
        simp only [forward_apply]
        cases (transport after.server result.2).2 with
        | ok response => exact handleResponse_cache credential urlHost transport now _ _ response prepared
        | error e => exact prepared
    | error e after => exact id

theorem run_cache (calls : List Call) {pipeline : Pipeline σ τ} (good : CacheFollowsScope pipeline) :
    CacheFollowsScope (run credential urlHost transport calls pipeline) := by
  induction calls generalizing pipeline with
  | nil => exact good
  | cons call rest induction =>
      exact induction (send_cache credential urlHost transport call.now call.context call.request good)

/-- Over any sequence of requests through a new pipeline, the token cache holds only a token
requested for exactly the scope then stored. -/
theorem cache_follows_stored_scope (verifyChallengeResource : Bool) (state : σ) (server : τ)
    (calls : List Call) :
    CacheFollowsScope (run credential urlHost transport calls (Pipeline.new verifyChallengeResource state server)) :=
  run_cache credential urlHost transport calls (cacheFollowsScope_of_empty rfl)

/-- What the pipeline is to guarantee: a request passed on with a token carries one requested for
a scope whose host the request's host ends with. -/
def TokensMatchHosts (pipeline : Pipeline σ τ) : Prop :=
  ∀ forwarded ∈ pipeline.sent, ∀ cached, forwarded.authorization = some cached →
    ∃ scope, cached.scopes = [scope] ∧ challengeMatches urlHost forwarded.url.host scope = true

end

/-- A vault answering its first request with a challenge for a foreign scope: `on_challenge` rejects
it but has stored the scope, and the next request to the vault goes out with a token for it. -/
theorem rejected_challenge_authorizes_later_request {σ : Type} (credential : TokenCredential σ)
    (urlHost : List Char → Option (List Char)) (state later : σ) (token : AccessToken)
    (first second : Request) (before after : Int)
    (https : first.url.scheme = "https".toList ∧ second.url.scheme = "https".toList)
    (sameHost : second.url.host = first.url.host)
    (rejected : challengeMatches urlHost first.url.host "https://attacker.example/.default".toList = false)
    (granted : credential state ["https://attacker.example/.default".toList] after = (later, .ok token)) :
    let ran := run credential urlHost
      (fun server _ => (server, .ok ⟨401, some ("Bearer authorization=\"https://login.microsoftonline.com/" ++
        "tenant\", scope=\"https://attacker.example/.default\"").toList⟩))
      [⟨none, first, before⟩, ⟨none, second, after⟩] (Pipeline.new true state ())
    { second with authorization := some ⟨token, ["https://attacker.example/.default".toList]⟩ } ∈ ran.sent ∧
      ¬ TokensMatchHosts urlHost ran := by
  intro ran
  -- the first call stores the rejected scope and leaves the cache empty
  obtain ⟨stored, emptied⟩ := @send_stores_rejected_scope σ Unit credential urlHost
    (fun server _ => (server, .ok ⟨401, some ("Bearer authorization=\"https://login.microsoftonline.com/" ++
      "tenant\", scope=\"https://attacker.example/.default\"").toList⟩)) before
    none first (Pipeline.new true state ()) _ _ https.1 rfl rfl (fun _ _ => rfl) (by decide) rejected
  -- the second call authorizes for whatever scope is stored
  have passed := @send_forwards_stored_scope σ Unit credential urlHost
    (fun server _ => (server, .ok ⟨401, some ("Bearer authorization=\"https://login.microsoftonline.com/" ++
      "tenant\", scope=\"https://attacker.example/.default\"").toList⟩)) after none second _ later token
    https.2 (by rw [stored]; decide) (by rw [emptied]) (by rw [emptied, stored]; exact granted)
  rw [stored] at passed
  refine ⟨passed, ?_⟩
  intro matching
  obtain ⟨scope, single, accepted⟩ := matching _ passed _ rfl
  cases single
  rw [sameHost, rejected] at accepted
  cases accepted

theorem rejected_challenge_authorizes_vault_request :
    let vault : Request := ⟨⟨"https://myvault.vault.azure.net/keys/k".toList, "https".toList,
      some "myvault.vault.azure.net".toList⟩, .bytes 0, none, none, none⟩
    let ran := run (fun (state : Unit) _ _ => (state, .ok ⟨"secret".toList, 3600⟩))
      (fun _ => some "attacker.example".toList)
      (fun server _ => (server, .ok ⟨401, some ("Bearer authorization=\"https://login.microsoftonline.com/" ++
        "tenant\", scope=\"https://attacker.example/.default\"").toList⟩))
      [⟨none, vault, 0⟩, ⟨none, vault, 0⟩] (Pipeline.new true () ())
    { vault with authorization := some ⟨⟨"secret".toList, 3600⟩, ["https://attacker.example/.default".toList]⟩ } ∈
        ran.sent ∧
      ¬ TokensMatchHosts (fun _ => some "attacker.example".toList) ran :=
  rejected_challenge_authorizes_later_request _ _ () () _ _ _ 0 0 ⟨rfl, rfl⟩ rfl (by decide) rfl

end KeyVault
