import Mathlib
import AzureSdk.Lib.EState

/-!
# Bearer token authorization in `azure_core`

`BearerTokenAuthorizer` keeps one access token for a credential. `authorize` asks the
credential for a token when the cache is empty or its token is within five minutes
of expiry, keeps the old token when a refresh fails before it has expired, and sets
the request's `Authorization` header from whatever the cache then holds. The cache
keeps a single token whatever scopes were asked for; a 401 response empties it.

The model runs requests one at a time, so the lock upgrades and their re-checks of
the cache always see what the read saw. A stateful action is an `EStateM` over the
authorizer: a failed action keeps the changes made before it failed, as the locked
state does. The cache records with each token the scopes it was requested for,
which the code does not keep and the statements are about.
-/

namespace AzureCore

set_option autoImplicit false

inductive ErrorKind where
  | credential
  | dataConversion
  | io
  | other
  deriving DecidableEq

/-- `azure_core::Error`, by its kind and message. -/
structure Error where
  kind : ErrorKind
  message : List Char
  deriving DecidableEq

structure AccessToken where
  secret : List Char
  expiresOn : Int
  deriving DecidableEq

structure CachedToken where
  token : AccessToken
  scopes : List (List Char)
  deriving DecidableEq

inductive Body where
  | bytes (length : Nat)
  | seekableStream (length : Option Nat)
  deriving DecidableEq

namespace Body

def len : Body → Option Nat
  | bytes length => some length
  | seekableStream length => length

def isEmpty (body : Body) : Option Bool := body.len.map (· == 0)

/-- `Body::take`: the body left in place is empty, of the same kind. -/
def take : Body → Body
  | bytes _ => bytes 0
  | seekableStream _ => seekableStream (some 0)

@[simp] theorem isEmpty_take (body : Body) : body.take.isEmpty = some true := by
  cases body <;> rfl

end Body

/-- A parsed `Url`: its text, its scheme and `host_str`. -/
structure Url where
  text : List Char
  scheme : List Char
  host : Option (List Char)
  deriving DecidableEq

structure Request where
  url : Url
  body : Body
  contentLength : Option (List Char)
  contentType : Option (List Char)
  /-- The `Authorization` header, `Bearer` and the secret of this token. -/
  authorization : Option CachedToken
  deriving DecidableEq

structure Response where
  status : Nat
  wwwAuthenticate : Option (List Char)
  deriving DecidableEq

/-- `TokenCredential::get_token` of a credential in state `σ`, when the clock reads `now`. -/
abbrev TokenCredential (σ : Type) := σ → List (List Char) → Int → σ × Except Error AccessToken

structure BearerTokenAuthorizer (σ : Type) where
  accessToken : Option CachedToken
  credential : σ

/-- `should_refresh`, in seconds. -/
def shouldRefresh (expiresOn now : Int) : Bool := decide (expiresOn ≤ now + 300)

def fetchFailed : Error :=
  ⟨.credential, "The request failed due to an error while fetching the access token.".toList⟩

namespace BearerTokenAuthorizer

variable {σ : Type} (credential : TokenCredential σ) (now : Int)

def new (state : σ) : BearerTokenAuthorizer σ := ⟨none, state⟩

def invalidateCache : EStateM Error (BearerTokenAuthorizer σ) Unit :=
  modify fun authorizer => { authorizer with accessToken := none }

/-- One call of `get_token`, its result kept as a value. -/
def getToken (scopes : List (List Char)) : EStateM Error (BearerTokenAuthorizer σ) (Except Error AccessToken) :=
  modifyGet fun authorizer =>
    let (state, result) := credential authorizer.credential scopes now
    (result, { authorizer with credential := state })

def store (token : AccessToken) (scopes : List (List Char)) : EStateM Error (BearerTokenAuthorizer σ) Unit :=
  modify fun authorizer => { authorizer with accessToken := some ⟨token, scopes⟩ }

def refresh (scopes : List (List Char)) : EStateM Error (BearerTokenAuthorizer σ) Unit := do
  match (← get).accessToken with
  | none =>
      match ← getToken credential now scopes with
      | .ok token => store token scopes
      | .error e => throw e
  | some cached =>
      if shouldRefresh cached.token.expiresOn now then
        match ← getToken credential now scopes with
        | .ok token => store token scopes
        | .error e => if cached.token.expiresOn ≤ now then throw e else pure ()
      else pure ()

def authorize (request : Request) (scopes : List (List Char)) :
    EStateM Error (BearerTokenAuthorizer σ) Request := do
  refresh credential now scopes
  match (← get).accessToken with
  | none => throw fetchFailed
  | some cached => pure { request with authorization := some cached }

open EState

@[simp] theorem getToken_apply (scopes : List (List Char)) (authorizer : BearerTokenAuthorizer σ) :
    getToken credential now scopes authorizer =
      .ok (credential authorizer.credential scopes now).2
        { authorizer with credential := (credential authorizer.credential scopes now).1 } := rfl

@[simp] theorem store_apply (token : AccessToken) (scopes : List (List Char))
    (authorizer : BearerTokenAuthorizer σ) :
    store token scopes authorizer = .ok () { authorizer with accessToken := some ⟨token, scopes⟩ } := rfl

@[simp] theorem invalidateCache_apply (authorizer : BearerTokenAuthorizer σ) :
    invalidateCache authorizer = .ok () { authorizer with accessToken := none } := rfl

theorem refresh_cache (scopes : List (List Char)) (authorizer : BearerTokenAuthorizer σ) :
    (final (refresh credential now scopes authorizer)).accessToken = authorizer.accessToken ∨
      ∃ token, (final (refresh credential now scopes authorizer)).accessToken = some ⟨token, scopes⟩ := by
  rcases authorizer with ⟨_ | cached, state⟩
  · simp only [refresh, bind_apply, get_apply, getToken_apply]
    rcases credential state scopes now with ⟨state', _ | token⟩ <;> simp
  · simp only [refresh, bind_apply, get_apply]
    split
    · simp only [bind_apply, getToken_apply]
      rcases credential state scopes now with ⟨state', _ | token⟩
      · simp only
        split <;> simp
      · simp
    · simp

theorem authorize_apply (request : Request) (scopes : List (List Char)) (authorizer : BearerTokenAuthorizer σ) :
    authorize credential now request scopes authorizer =
      match refresh credential now scopes authorizer with
      | .ok _ refreshed =>
          match refreshed.accessToken with
          | none => .error fetchFailed refreshed
          | some cached => .ok { request with authorization := some cached } refreshed
      | .error e refreshed => .error e refreshed := by
  simp only [authorize, bind_apply, get_apply]
  cases refresh credential now scopes authorizer with
  | ok _ refreshed =>
      rcases refreshed with ⟨_ | cached, state⟩ <;> rfl
  | error e refreshed => rfl

theorem final_authorize (request : Request) (scopes : List (List Char)) (authorizer : BearerTokenAuthorizer σ) :
    final (authorize credential now request scopes authorizer) =
      final (refresh credential now scopes authorizer) := by
  rw [authorize_apply]
  split
  · split <;> simp_all
  · simp_all

theorem authorize_cache (request : Request) (scopes : List (List Char)) (authorizer : BearerTokenAuthorizer σ) :
    (final (authorize credential now request scopes authorizer)).accessToken = authorizer.accessToken ∨
      ∃ token, (final (authorize credential now request scopes authorizer)).accessToken =
        some ⟨token, scopes⟩ := by
  rw [final_authorize]
  exact refresh_cache credential now scopes authorizer

theorem authorize_of_empty {request : Request} {scopes : List (List Char)}
    {authorizer : BearerTokenAuthorizer σ} {state : σ} {token : AccessToken}
    (empty : authorizer.accessToken = none)
    (granted : credential authorizer.credential scopes now = (state, .ok token)) :
    authorize credential now request scopes authorizer =
      .ok { request with authorization := some ⟨token, scopes⟩ } ⟨some ⟨token, scopes⟩, state⟩ := by
  rcases authorizer with ⟨cache, current⟩
  simp only at empty granted
  subst empty
  rw [authorize_apply]
  simp [refresh, granted]

end BearerTokenAuthorizer

end AzureCore
