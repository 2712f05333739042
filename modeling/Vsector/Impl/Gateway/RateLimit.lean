import Vsector.Framework.Dict
import Vsector.Framework.SlidingWindow

/-!
# Rate limiting

`rate_limiter` of `gateway/auth.py`. A request is the time it arrives at and
its header `X-API-Key`; the lock makes the requests take their turns, so a run
is a list of them.
-/

namespace Vsector.Api

open Framework

/-- An `HTTPException`. -/
structure HttpError where
  status : Nat
  detail : String
  headers : List (String × String)
deriving DecidableEq

def rateLimitExceeded : HttpError :=
  ⟨429, "Rate limit exceeded", [("X-RateLimit-Remaining", "0"), ("X-RateLimit-Reset", "1")]⟩

/-- `API_KEYS`, of whose entries only `quota` is read, and `settings.rate_limit_rps`. -/
structure Quotas where
  apiKeys : Dict String (Option Nat)
  rateLimitRps : Nat

/-- `API_KEYS.get(key, {}).get("quota", settings.rate_limit_rps)`. -/
def Quotas.quota (L : Quotas) (key : String) : Nat :=
  ((L.apiKeys.get? key).join).getD L.rateLimitRps

structure TimedRequest where
  now : ℚ
  xApiKey : Option String
deriving DecidableEq

/-- `x_api_key or "anonymous"`. -/
def TimedRequest.key (r : TimedRequest) : String := (r.xApiKey.filter (· ≠ "")).getD "anonymous"

/-- `_buckets`, a dictionary of lists that are empty at first. -/
abbrev Buckets := Dict String (List ℚ)

def Buckets.bucket (b : Buckets) (key : String) : List ℚ := (Dict.get? b key).getD []

/-- `rate_limiter`: its answer, and the buckets it leaves. -/
def rateLimiter (L : Quotas) (r : TimedRequest) (b : Buckets) : Except HttpError String × Buckets :=
  let window := recent 1 r.now (b.bucket r.key)
  if L.quota r.key ≤ window.length then (.error rateLimitExceeded, Dict.set b r.key window)
  else (.ok r.key, Dict.set b r.key (window ++ [r.now]))

/-- The gateway after some requests: the buckets, and the answers given, oldest first. -/
structure Limited where
  buckets : Buckets
  answers : List (TimedRequest × Except HttpError String)

/-- One more request. -/
def Limited.next (L : Quotas) (s : Limited) (r : TimedRequest) : Limited where
  buckets := (rateLimiter L r s.buckets).2
  answers := s.answers ++ [(r, (rateLimiter L r s.buckets).1)]

/-- A run from the start of the process. -/
def serveAll (L : Quotas) (requests : List TimedRequest) : Limited :=
  requests.foldl (Limited.next L) ⟨∅, []⟩

/-- When the requests of `key` that were admitted arrived. -/
def admitted (key : String) (answers : List (TimedRequest × Except HttpError String)) : List ℚ :=
  answers.filterMap fun a => if a.1.key = key ∧ a.2.isOk then some a.1.now else none

end Vsector.Api
