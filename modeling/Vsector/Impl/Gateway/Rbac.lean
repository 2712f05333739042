import Vsector.Framework.Dict
import Vsector.Impl.Errors

/-!
# The gateway

`verify_api_key` of `gateway/auth.py`, and the roles and permissions of
`gateway/rbac.py`, and the policy of `policy/rbac.rego`. What the JWT library
decodes and the OPA sidecar answers are parameters; the client certificates,
which no endpoint asks for, are left out.
-/

namespace Vsector.Api

open Framework

/-- What an endpoint is told of a caller: the claims it looks at. -/
structure Auth where
  sub : Option String
  tenant : Option String

/-- The headers of a request. -/
structure Credentials where
  apiKey : Option String
  authorization : Option String

/-- The settings of the gateway. `jwtDecode` is `none` where the library raises; `opa` is there if
its URL is set, and answers `none` where it cannot be reached. -/
structure Gateway where
  env : String
  apiKeys : Dict String String
  jwtDecode : String → Option Auth
  policies : Dict String (Dict String (List String))
  opa : Option (String → String → String → Option Bool)

def httpException (status : Nat) (detail : String) : Exc :=
  .other "HTTPException" s!"{status}: {detail}"

/-- `authorization.split(" ", 1)[1]`, where the header starts with `Bearer `. -/
def bearerToken (authorization : String) : Option String :=
  if "Bearer ".isPrefixOf authorization then some (String.ofList (authorization.toList.drop 7))
    else none

namespace Gateway

/-- `verify_api_key`. -/
def verifyApiKey (g : Gateway) (c : Credentials) : Except Exc Auth :=
  if g.env = "development" then .ok ⟨some "dev", none⟩
  else
    match (c.apiKey.filter (· ≠ "")).bind g.apiKeys.get? with
    | some tenant => .ok ⟨some tenant, none⟩
    | none =>
      match c.authorization.bind bearerToken with
      | some token =>
        match g.jwtDecode token with
        | some payload => .ok payload
        | none => .error (httpException 401 "Invalid JWT")
      | none => .error (httpException 401 "Missing API key or JWT")

end Gateway

/-- `_auth.get("sub") or _auth.get("tenant") or "dev"`. -/
def Auth.tenantName (a : Auth) : String :=
  match a.sub.filter (· ≠ ""), a.tenant.filter (· ≠ "") with
  | some sub, _ => sub
  | none, some tenant => tenant
  | none, none => "dev"

/-- The table of `_role_allows`. -/
def roleActions : String → List String
  | "reader" => ["query", "fetch", "stats"]
  | "writer" => ["upsert", "delete", "query", "fetch"]
  | "admin" => ["*"]
  | _ => []

/-- `_role_allows`. -/
def roleAllows (role action : String) : Bool := "*" ∈ roleActions role || action ∈ roleActions role

/-- `_POLICIES`, as it is shipped. -/
def defaultPolicies : Dict String (Dict String (List String)) :=
  (Dict.set ∅ "demo" ((Dict.set ∅ "products" ["reader", "writer"]).set "*" ["reader"])).set "test"
    (Dict.set ∅ "*" ["admin"])

namespace Gateway

/-- The roles that `check_permission` finds in the policies: of the namespace, or else of `*`. -/
def roles (g : Gateway) (tenant ns : String) : List String :=
  let policies := (g.policies.get? tenant).getD ∅
  match (policies.get? ns).getD [] with
  | [] => (policies.get? "*").getD []
  | roles => roles

/-- `check_permission`. -/
def checkPermission (g : Gateway) (tenant ns action : String) : Except Exc Unit :=
  match g.opa.bind fun opa => opa tenant ns action with
  | some true => .ok ()
  | some false => .error (httpException 403 s!"OPA deny {tenant}/{ns}:{action}")
  | none =>
    if (g.roles tenant ns).any (roleAllows · action) then .ok ()
    else .error (httpException 403 s!"RBAC deny tenant={tenant} ns={ns} action={action}")

/-- The check of an endpoint: a denial counts in production only. -/
def guard (g : Gateway) (auth : Auth) (ns action : String) : Except Exc Unit :=
  match g.checkPermission auth.tenantName ns action with
  | .error e => if g.env = "production" then .error e else .ok ()
  | .ok () => .ok ()

end Gateway

/-! ## The Rego policy

A rule is undefined where a lookup in its body is, and `allow` is `false`
unless one of its rules is `true`. -/

namespace Rego

/-- `role_allows`, one rule for each role. -/
def roleAllows (role action : String) : Bool :=
  role = "admin" ||
  (role = "writer" && action ∈ ["upsert", "delete", "query", "fetch"]) ||
  (role = "reader" && action ∈ ["query", "fetch", "stats"])

/-- The rule over `data.policies[tenant][ns]`. -/
def allowsIn (policies : Dict String (Dict String (List String))) (tenant ns action : String) :
    Option Bool := do
  let namespaces ← policies.get? tenant
  let roles ← namespaces.get? ns
  if roles.any (roleAllows · action) then some true else none

/-- `allow`. -/
def allow (policies : Dict String (Dict String (List String))) (tenant ns action : String) : Bool :=
  tenant = "test" ||
  (allowsIn policies tenant ns action).getD false ||
  (allowsIn policies tenant "*" action).getD false

end Rego

end Vsector.Api
