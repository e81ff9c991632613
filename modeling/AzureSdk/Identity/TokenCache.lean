import Mathlib
import AzureSdk.Core.BearerToken
import AzureSdk.Lib.SortedMap

/-!
# The token cache of `azure_identity`

Every credential of `azure_identity` answers `get_token` through a `TokenCache`: the
token last fetched for a list of scopes is handed back until it is within five
minutes of expiry, and only then does the credential send its own request. A failed
request leaves the cache as it was.

Times are milliseconds here, as in the messaging authorizers that call these
credentials. Calls run one at a time, so the re-check under the write lock sees what
the read saw and is not modelled again.
-/

namespace AzureIdentity

set_option autoImplicit false

open AzureCore

structure TokenCache where
  tokens : List (List (List Char) × AccessToken)

/-- `should_refresh`, in milliseconds. -/
def shouldRefresh (token : AccessToken) (now : Int) : Bool :=
  decide (token.expiresOn ≤ now + 300000)

namespace TokenCache

variable {σ : Type} (callback : TokenCredential σ)

def new : TokenCache := ⟨[]⟩

/-- A cache miss: the callback's token is stored and returned, its error returned with
the cache unchanged. -/
def fetch (cache : TokenCache) (state : σ) (scopes : List (List Char)) (now : Int) :
    (TokenCache × σ) × Except Error AccessToken :=
  match callback state scopes now with
  | (state, .ok token) => ((⟨SortedMap.insert cache.tokens scopes token⟩, state), .ok token)
  | (state, .error e) => ((cache, state), .error e)

/-- `TokenCache::get_token` with `callback` as the credential's own request: a cached
credential's state is its cache with the state of the callback. -/
def getToken : TokenCredential (TokenCache × σ)
  | (cache, state), scopes, now =>
      match SortedMap.get cache.tokens scopes with
      | some token =>
          if shouldRefresh token now then fetch callback cache state scopes now
          else ((cache, state), .ok token)
      | none => fetch callback cache state scopes now

theorem getToken_of_fresh {cache : TokenCache} {scopes : List (List Char)} {token : AccessToken}
    {now : Int} (cached : SortedMap.get cache.tokens scopes = some token)
    (fresh : now + 300000 < token.expiresOn) (state : σ) :
    getToken callback (cache, state) scopes now = ((cache, state), .ok token) := by
  have keep : shouldRefresh token now = false := by
    simp only [shouldRefresh, decide_eq_false_iff_not, not_le]
    exact fresh
  simp only [getToken, cached, keep, Bool.false_eq_true, if_false]

end TokenCache

end AzureIdentity
