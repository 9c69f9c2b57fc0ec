import Mathlib.Tactic.Common

/-!
# Gateway policies of the API and of the gateway

The two converters of `policyconfig`, with the checks of the write side.
-/

namespace Unkey.PolicyConfig

inductive Code
  | invalidInput
  | unexpectedError
  deriving DecidableEq

structure Fault where
  message : String
  code : Code
  internal : String
  publicMessage : String
  deriving DecidableEq

def invalid (message : String) : Fault :=
  ⟨"invalid policy", .invalidInput, "policy validation failed", message⟩

def unmappable (policyID what : String) : Fault :=
  ⟨"unmappable stored policy", .unexpectedError,
    "stored policy has an unmappable " ++ what ++
      (if policyID = "" then "" else " (policy " ++ policyID ++ ")"),
    "We're unable to read the stored policies."⟩

def exactlyOne (path variants : String) (set : List Bool) : Except Fault Unit :=
  if set.count true = 1 then .ok ()
  else .error (invalid (path ++ " must set exactly one of " ++ variants ++ "; " ++
    (if 1 < set.count true then toString (set.count true) ++ " are set" else "none are set") ++ "."))

/-- The libraries the converters call: a regular expression or a query is refused with a text. -/
structure Libraries where
  compile : String → Option String
  parseQuery : String → Option String
  quote : String → String

/-! ### Types of the API, where a pointer that may be nil is an `Option` -/

structure StringMatch where
  exact : Option String
  hasPrefix : Option String
  regex : Option String
  ignoreCase : Option Bool
  deriving DecidableEq

structure FieldMatch where
  name : String
  present : Option Bool
  value : Option StringMatch
  deriving DecidableEq

structure MatchExpr where
  path : Option StringMatch
  method : Option (List String)
  header : Option FieldMatch
  queryParam : Option FieldMatch
  deriving DecidableEq

structure HeaderKeyLocation where
  name : String
  stripPrefix : Option String
  deriving DecidableEq

structure KeyLocation where
  bearer : Option Unit
  header : Option HeaderKeyLocation
  queryParam : Option String
  deriving DecidableEq

structure KeyRatelimit where
  name : String
  limit : Option Int
  duration : Option Int
  cost : Option Int
  deriving DecidableEq

structure KeyauthPolicy where
  keyspaces : List String
  locations : Option (List KeyLocation)
  permissionQuery : Option String
  ratelimits : Option (List KeyRatelimit)
  credits : Option Int
  deriving DecidableEq

structure RatelimitIdentifier where
  remoteIp : Option Unit
  header : Option String
  authenticatedSubject : Option Unit
  path : Option Unit
  principalField : Option String
  deriving DecidableEq

structure RatelimitPolicy where
  limit : Int
  windowMs : Int
  identifier : Option RatelimitIdentifier
  identifiers : Option (List RatelimitIdentifier)
  deriving DecidableEq

structure LoggingPolicy where
  requestHeaders : Option Bool
  responseHeaders : Option Bool
  requestBody : Option Bool
  responseBody : Option Bool
  query : Option Bool
  deriving DecidableEq

structure Policy where
  name : String
  enabled : Bool
  matchExprs : Option (List MatchExpr)
  keyauth : Option KeyauthPolicy
  ratelimit : Option RatelimitPolicy
  firewall : Option String
  openapi : Option Unit
  logging : Option LoggingPolicy
  deriving DecidableEq

structure PolicyResponse extends Policy where
  id : String
  deriving DecidableEq

/-! ### Protos, where a oneof may be empty -/

namespace Proto

inductive StringMatch.Match
  | exact (value : String)
  | hasPrefix (value : String)
  | regex (value : String)
  deriving DecidableEq

structure StringMatch where
  ignoreCase : Bool
  matcher : Option StringMatch.Match
  deriving DecidableEq

inductive FieldMatch.Match
  | present (present : Bool)
  | value (value : StringMatch)
  deriving DecidableEq

/-- `HeaderMatch` and `QueryParamMatch`. -/
structure FieldMatch where
  name : String
  matcher : Option FieldMatch.Match
  deriving DecidableEq

inductive MatchExpr
  | path (path : StringMatch)
  | method (methods : List String)
  | header (header : FieldMatch)
  | queryParam (queryParam : FieldMatch)
  deriving DecidableEq

inductive KeyLocation
  | bearer
  | header (name stripPrefix : String)
  | queryParam (name : String)
  deriving DecidableEq

structure KeyAuth where
  keySpaceIds : List String
  locations : List (Option KeyLocation)
  permissionQuery : Option String
  ratelimits : List KeyRatelimit
  credits : Option Int
  deriving DecidableEq

inductive RateLimitIdentifier
  | remoteIp
  | header (name : String)
  | authenticatedSubject
  | path
  | principalField (path : String)
  deriving DecidableEq

structure RateLimit where
  limit : Int
  windowMs : Int
  identifier : Option (Option RateLimitIdentifier)
  identifiers : List (Option RateLimitIdentifier)
  deriving DecidableEq

inductive Action
  | unspecified
  | deny
  deriving DecidableEq

structure Logging where
  requestHeaders : Bool
  responseHeaders : Bool
  requestBody : Bool
  responseBody : Bool
  query : Bool
  deriving DecidableEq

inductive Config
  | keyauth (keyauth : KeyAuth)
  | jwtauth
  | ratelimit (ratelimit : RateLimit)
  | firewall (action : Action)
  | openapi
  | logging (logging : Logging)
  deriving DecidableEq

structure Policy where
  id : String
  name : String
  enabled : Option Bool
  matchExprs : List (Option MatchExpr)
  config : Option Config
  deriving DecidableEq

end Proto

/-! ### To protos -/

def mapIndexed {α β : Type} (conv : String → α → Except Fault β) (path : String) :
    Nat → List α → Except Fault (List β)
  | _, [] => .ok []
  | i, x :: xs => do
    let y ← conv (path ++ "[" ++ toString i ++ "]") x
    let ys ← mapIndexed conv path (i + 1) xs
    return y :: ys

section ToProto

variable (lib : Libraries)

def mapStringMatchToProto (path : String) (s : StringMatch) : Except Fault Proto.StringMatch := do
  exactlyOne path "exact, prefix or regex" [s.exact.isSome, s.hasPrefix.isSome, s.regex.isSome]
  let ignoreCase := s.ignoreCase.getD false
  match s.exact, s.hasPrefix, s.regex with
  | some v, _, _ => return ⟨ignoreCase, some (.exact v)⟩
  | none, some v, _ => return ⟨ignoreCase, some (.hasPrefix v)⟩
  | none, none, some v =>
    match lib.compile v with
    | some err => throw (invalid (path ++ ".regex is not a valid regular expression: " ++ err))
    | none => return ⟨ignoreCase, some (.regex v)⟩
  | none, none, none => return ⟨ignoreCase, none⟩

def mapFieldMatchToProto (path : String) (f : FieldMatch) : Except Fault Proto.FieldMatch := do
  exactlyOne path "present or value" [f.present.isSome, f.value.isSome]
  match f.present, f.value with
  | some present, _ => return ⟨f.name, some (.present present)⟩
  | none, some value =>
    let sm ← mapStringMatchToProto lib (path ++ ".value") value
    return ⟨f.name, some (.value sm)⟩
  | none, none => return ⟨f.name, none⟩

def mapMatchExprToProto (path : String) (m : MatchExpr) : Except Fault (Option Proto.MatchExpr) := do
  exactlyOne path "path, method, header or queryParam"
    [m.path.isSome, m.method.isSome, m.header.isSome, m.queryParam.isSome]
  match m.path, m.method, m.header, m.queryParam with
  | some p, _, _, _ =>
    let sm ← mapStringMatchToProto lib (path ++ ".path.path") p
    return some (.path sm)
  | none, some methods, _, _ => return some (.method methods)
  | none, none, some header, _ =>
    let field ← mapFieldMatchToProto lib (path ++ ".header") header
    return some (.header field)
  | none, none, none, some queryParam =>
    let field ← mapFieldMatchToProto lib (path ++ ".queryParam") queryParam
    return some (.queryParam field)
  | none, none, none, none => return none

def mapKeyLocationToProto (path : String) (loc : KeyLocation) :
    Except Fault (Option Proto.KeyLocation) := do
  exactlyOne path "bearer, header or queryParam"
    [loc.bearer.isSome, loc.header.isSome, loc.queryParam.isSome]
  match loc.bearer, loc.header, loc.queryParam with
  | some _, _, _ => return some .bearer
  | none, some header, _ => return some (.header header.name (header.stripPrefix.getD ""))
  | none, none, some name => return some (.queryParam name)
  | none, none, none => return none

def mapKeyRatelimitToProto (path : String) (rl : KeyRatelimit) : Except Fault KeyRatelimit :=
  if rl.limit.isNone ≠ rl.duration.isNone then
    .error (invalid (path ++ " must set limit and duration together."))
  else .ok rl

def mapKeyauthToProto (path : String) (k : KeyauthPolicy) : Except Fault Proto.KeyAuth := do
  let locations ← mapIndexed mapKeyLocationToProto (path ++ ".locations") 0 (k.locations.getD [])
  let ratelimits ← mapIndexed mapKeyRatelimitToProto (path ++ ".ratelimits") 0 (k.ratelimits.getD [])
  match if k.permissionQuery.getD "" = "" then none else lib.parseQuery (k.permissionQuery.getD "") with
  | some err => throw (invalid (path ++ ".permissionQuery is not a valid permission query: " ++ err))
  | none =>
    if k.credits.any (· < 0) then throw (invalid (path ++ ".credits must not be negative."))
    return ⟨k.keyspaces, locations, k.permissionQuery, ratelimits, k.credits⟩

def mapRatelimitIdentifierToProto (path : String) (id : RatelimitIdentifier) :
    Except Fault (Option Proto.RateLimitIdentifier) := do
  exactlyOne path "remoteIp, header, authenticatedSubject, path or principalField"
    [id.remoteIp.isSome, id.header.isSome, id.authenticatedSubject.isSome, id.path.isSome,
      id.principalField.isSome]
  match id.remoteIp, id.header, id.authenticatedSubject, id.path, id.principalField with
  | some _, _, _, _, _ => return some .remoteIp
  | none, some name, _, _, _ => return some (.header name)
  | none, none, some _, _, _ => return some .authenticatedSubject
  | none, none, none, some _, _ => return some .path
  | none, none, none, none, some field => return some (.principalField field)
  | none, none, none, none, none => return none

def maxCompoundIdentifiers : Nat := 5

def mapRatelimitToProto (path : String) (r : RatelimitPolicy) : Except Fault Proto.RateLimit := do
  exactlyOne path "identifier or identifiers"
    [r.identifier.isSome, !(r.identifiers.getD []).isEmpty]
  match r.identifier with
  | some id =>
    let identifier ← mapRatelimitIdentifierToProto (path ++ ".identifier") id
    return ⟨r.limit, r.windowMs, none, [identifier]⟩
  | none =>
    if maxCompoundIdentifiers < (r.identifiers.getD []).length then
      throw (invalid (path ++ ".identifiers must not have more than " ++
        toString maxCompoundIdentifiers ++ " entries."))
    let identifiers ← mapIndexed mapRatelimitIdentifierToProto (path ++ ".identifiers") 0
      (r.identifiers.getD [])
    return ⟨r.limit, r.windowMs, none, identifiers⟩

/-- `Action_value`. -/
def actionValue : String → Option Proto.Action
  | "ACTION_UNSPECIFIED" => some .unspecified
  | "ACTION_DENY" => some .deny
  | _ => none

def mapConfigToProto (path : String) (p : Policy) : Except Fault (Option Proto.Config) :=
  match p.keyauth, p.ratelimit, p.firewall, p.openapi, p.logging with
  | some k, _, _, _, _ => return some (.keyauth (← mapKeyauthToProto lib (path ++ ".keyauth") k))
  | none, some r, _, _, _ => return some (.ratelimit (← mapRatelimitToProto (path ++ ".ratelimit") r))
  | none, none, some action, _, _ =>
    match actionValue action with
    | none => throw (invalid (path ++ ".firewall.action " ++ lib.quote action ++
        " is not a known action."))
    | some action => return some (.firewall action)
  | none, none, none, some _, _ => return some .openapi
  | none, none, none, none, some l =>
    return some (.logging ⟨l.requestHeaders.getD false, l.responseHeaders.getD false,
      l.requestBody.getD false, l.responseBody.getD false, l.query.getD false⟩)
  | none, none, none, none, none => return none

def policyToProto (path : String) (p : Policy) : Except Fault Proto.Policy := do
  exactlyOne path "keyauth, ratelimit, firewall, openapi or logging"
    [p.keyauth.isSome, p.ratelimit.isSome, p.firewall.isSome, p.openapi.isSome, p.logging.isSome]
  let exprs ← mapIndexed (mapMatchExprToProto lib) (path ++ ".match") 0 (p.matchExprs.getD [])
  let config ← mapConfigToProto lib path p
  return ⟨"", p.name, some p.enabled, exprs, config⟩

def toProto (uid : Nat → String) (policies : List Policy) : Except Fault (List Proto.Policy) :=
  (mapIndexed (policyToProto lib) "policies" 0 policies).map
    (List.mapIdx fun i converted => { converted with id := uid i })

end ToProto

/-! ### From protos -/

def readList {α β : Type} (back : β → Except Fault α) (ys : List β) :
    Except Fault (Option (List α)) :=
  if ys.isEmpty then .ok none else some <$> ys.mapM back

def mapStringMatchFromProto (s : Proto.StringMatch) : Except Fault StringMatch :=
  let ignoreCase := if s.ignoreCase then some true else none
  match s.matcher with
  | some (.exact v) => .ok ⟨some v, none, none, ignoreCase⟩
  | some (.hasPrefix v) => .ok ⟨none, some v, none, ignoreCase⟩
  | some (.regex v) => .ok ⟨none, none, some v, ignoreCase⟩
  | none => .error (unmappable "" "string match")

def mapFieldMatchFromProto (what : String) (f : Proto.FieldMatch) : Except Fault FieldMatch :=
  match f.matcher with
  | some (.present true) => .ok ⟨f.name, some true, none⟩
  -- only `present: true` is in the schema
  | some (.present false) => .error (unmappable "" (what ++ " absent-match"))
  | some (.value sm) => return ⟨f.name, none, some (← mapStringMatchFromProto sm)⟩
  | none => .error (unmappable "" (what ++ " match"))

def mapMatchExprFromProto : Option Proto.MatchExpr → Except Fault MatchExpr
  | some (.path sm) => return ⟨some (← mapStringMatchFromProto sm), none, none, none⟩
  | some (.method methods) => .ok ⟨none, some methods, none, none⟩
  | some (.header f) => return ⟨none, none, some (← mapFieldMatchFromProto "header" f), none⟩
  | some (.queryParam f) => return ⟨none, none, none, some (← mapFieldMatchFromProto "queryParam" f)⟩
  | none => .error (unmappable "" "match expression")

def mapKeyLocationFromProto (policyID : String) : Option Proto.KeyLocation → Except Fault KeyLocation
  | some .bearer => .ok ⟨some (), none, none⟩
  | some (.header name stripPrefix) =>
    .ok ⟨none, some ⟨name, if stripPrefix = "" then none else some stripPrefix⟩, none⟩
  | some (.queryParam name) => .ok ⟨none, none, some name⟩
  | none => .error (unmappable policyID "key location")

def mapKeyauthFromProto (policyID : String) (k : Proto.KeyAuth) : Except Fault KeyauthPolicy :=
  if k.keySpaceIds.isEmpty then .error (unmappable policyID "keyauth without keyspaces")
  else do
    let locations ← readList (mapKeyLocationFromProto policyID) k.locations
    let ratelimits ← readList .ok k.ratelimits
    return ⟨k.keySpaceIds, locations, k.permissionQuery, ratelimits, k.credits⟩

def mapRatelimitIdentifierFromProto (policyID : String) :
    Option Proto.RateLimitIdentifier → Except Fault RatelimitIdentifier
  | some .remoteIp => .ok ⟨some (), none, none, none, none⟩
  | some (.header name) => .ok ⟨none, some name, none, none, none⟩
  | some .authenticatedSubject => .ok ⟨none, none, some (), none, none⟩
  | some .path => .ok ⟨none, none, none, some (), none⟩
  | some (.principalField field) => .ok ⟨none, none, none, none, some field⟩
  | none => .error (unmappable policyID "ratelimit identifier")

def Proto.RateLimit.sources (r : Proto.RateLimit) : List (Option Proto.RateLimitIdentifier) :=
  if r.identifiers.isEmpty then r.identifier.toList else r.identifiers

def mapRatelimitFromProto (policyID : String) (r : Proto.RateLimit) : Except Fault RatelimitPolicy :=
  if r.sources.isEmpty then .error (unmappable policyID "ratelimit without identifier")
  else return ⟨r.limit, r.windowMs, none,
    some (← r.sources.mapM (mapRatelimitIdentifierFromProto policyID))⟩

/-- `Action.String`. -/
def Proto.Action.string : Proto.Action → String
  | .unspecified => "ACTION_UNSPECIFIED"
  | .deny => "ACTION_DENY"

def policyFromProto (p : Proto.Policy) : Except Fault PolicyResponse := do
  let exprs ← readList mapMatchExprFromProto p.matchExprs
  let out : PolicyResponse :=
    ⟨⟨p.name, p.enabled.getD false, exprs, none, none, none, none, none⟩, p.id⟩
  match p.config with
  | some (.keyauth k) => return { out with keyauth := some (← mapKeyauthFromProto p.id k) }
  | some (.ratelimit r) => return { out with ratelimit := some (← mapRatelimitFromProto p.id r) }
  | some (.firewall action) => return { out with firewall := some action.string }
  | some .openapi => return { out with openapi := some () }
  | some (.logging l) => return { out with
      logging := some ⟨some l.requestHeaders, some l.responseHeaders, some l.requestBody,
        some l.responseBody, some l.query⟩ }
  | some .jwtauth | none => throw (unmappable p.id "config variant")

def fromProto (policies : List Proto.Policy) : Except Fault (List PolicyResponse) :=
  policies.mapM policyFromProto

end Unkey.PolicyConfig
