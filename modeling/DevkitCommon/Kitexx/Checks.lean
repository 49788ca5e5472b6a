import DevkitCommon.Authx.Token

/-! The three checks of a server and the middlewares Options puts around them: who is
calling, whether it may call the method, and whether the login it claims is proven. The
schemes, the clocks and the keys a kid finds are parameters; a token is one that decodes. -/
namespace DevkitCommon.Kitexx.Server
open Redis Authx

abbrev Getenv := String → String

def trimmed (s : String) : String := String.ofList (trimSpace s)

inductive Sent (α : Type) where
  | nothing
  | garbage
  | token (t : α)
  deriving DecidableEq, Repr

/- A ServiceAccount token. message is what the signature is over. -/
structure ServiceToken where
  alg : Option String
  kid : Option String
  issuer : String
  audience : List String
  subject : String
  expiresAt : Option Int
  notBefore : Option Int
  message : Bytes
  signature : Bytes
  deriving DecidableEq, Repr

/- What arrives with a call: the TTHeader and its metainfo. -/
structure Metadata where
  method : String
  fromService : String
  svcToken : Sent ServiceToken
  uid : Option String
  realm : Option String
  sid : Option String
  userToken : Sent AccessToken
  deriving DecidableEq, Repr

/- verifiedCaller is a value of this process: nothing a caller sends sets it. -/
structure Ctx extends Metadata where
  verifiedCaller : String
  deriving DecidableEq, Repr

inductive Outcome where
  | handled (ctx : Ctx)
  | refused (code : Int) (message : String)
  | answered
  deriving DecidableEq, Repr

abbrev Endpoint := Ctx → Outcome
abbrev Middleware := Endpoint → Endpoint

/- The first of the list is the outermost. -/
def chain (mws : List Middleware) (handler : Endpoint) : Endpoint := mws.foldr (fun mw next => mw next) handler

def Ctx.caller (ctx : Ctx) : String := if ctx.verifiedCaller ≠ "" then ctx.verifiedCaller else ctx.fromService

def codeForbidden : Int := 1007
def codeUnauthenticated : Int := 1004
def codeBadParam : Int := 1001
def codeBusy : Int := 5003

def modeOff : String := "off"
def modeLog : String := "log"
def modeEnforce : String := "enforce"
def validMode (m : String) : Bool := m == modeOff || m == modeLog || m == modeEnforce

def modeOf (getenv : Getenv) (conf env : String) : String :=
  let m := if trimmed conf = "" then trimmed (getenv env) else trimmed conf
  if m = "" then modeOff else m

section ServiceIdentity

structure ServiceIdentityConfig where
  mode : String
  audience : String
  issuer : String
  jwksURL : String
  namespaces : List String
  deriving DecidableEq, Repr

def saSubjectPrefix : String := "system:serviceaccount:"

namespace ServiceIdentityConfig
def effectiveMode (c : ServiceIdentityConfig) (getenv : Getenv) : String := modeOf getenv c.mode "SERVICE_IDENTITY"
def audienceName (c : ServiceIdentityConfig) : String := if c.audience ≠ "" then c.audience else "sportsbook-rpc"
def issuerName (c : ServiceIdentityConfig) : String :=
  if c.issuer ≠ "" then c.issuer else "https://kubernetes.default.svc.cluster.local"
def jwks (c : ServiceIdentityConfig) : String :=
  if c.jwksURL ≠ "" then c.jwksURL else "https://kubernetes.default.svc/openid/v1/jwks"

def allowedNS (c : ServiceIdentityConfig) (getenv : Getenv) : Option (List String) :=
  let list := if c.namespaces = [] then
      (((getenv "SERVICE_IDENTITY_NAMESPACES").toList.splitOn ',').map
        (fun s => trimmed (String.ofList s))).filter (fun s => s ≠ "")
    else c.namespaces
  if list = [] then none else some list
end ServiceIdentityConfig

def serviceAccount (subject : String) : Option (String × String) :=
  let start := saSubjectPrefix.toList
  if start.isPrefixOf subject.toList then
    let rest := subject.toList.drop start.length
    let ns := rest.takeWhile (fun c => c != ':')
    let name := (rest.dropWhile (fun c => c != ':')).drop 1
    if ns = [] ∨ name = [] then none else some (String.ofList ns,String.ofList name)
  else none

def timely (now : Int) (t : ServiceToken) : Bool :=
  t.expiresAt.any (fun exp => decide (now < exp*second + 30*second)) &&
    t.notBefore.all (fun nbf => decide (nbf*second ≤ now + 30*second))

structure Cluster where
  rsaVerify : Bytes → Bytes → Bytes → Bool
  keys : String → Option Bytes

def checkServiceToken (cluster : Cluster) (c : ServiceIdentityConfig) (now : Int) (t : ServiceToken) :
    Option (String × String) :=
  if t.alg ≠ some "RS256" then none
  else match cluster.keys (t.kid.getD "") with
    | none => none
    | some key =>
      if cluster.rsaVerify key t.message t.signature ∧ t.issuer = c.issuerName ∧ c.audienceName ∈ t.audience ∧
        timely now t then serviceAccount t.subject
      else none

/- The name the token proves, or the result that is counted. -/
def provenCaller (cluster : Cluster) (c : ServiceIdentityConfig) (getenv : Getenv) (now : Int) (ctx : Ctx) :
    Except String String :=
  match ctx.svcToken with
  | .nothing => .error "no_token"
  | .garbage => .error "bad_token"
  | .token t =>
    match checkServiceToken cluster c now t with
    | none => .error "bad_token"
    | some (ns,name) =>
      if (c.allowedNS getenv).any (fun list => !list.contains ns) then .error "wrong_namespace"
      else if name ≠ ctx.fromService then .error "mismatch"
      else .ok name

def pass : Middleware := fun next => next

/- What a server finds at its start: the errors of newJWKS and of the first fetch. -/
structure Start where
  opened : Option String
  fetched : Option String

def serviceIdentityCheck (c : ServiceIdentityConfig) (getenv : Getenv) (start : Start) :
    Except String (Cluster → Int → Middleware) :=
  let mode := c.effectiveMode getenv
  if mode = modeOff then .ok (fun _ _ => pass)
  else if mode ≠ modeLog ∧ mode ≠ modeEnforce then
    .error ("kitexx: service_identity.mode " ++ Text.quote mode ++ ": off, log or enforce")
  else match start.opened,start.fetched with
    | some e,_ => .error e
    | none,some e =>
      if mode = modeEnforce then
        .error ("kitexx: service_identity enforce: cannot read the cluster's public keys from " ++ c.jwks ++ ": " ++ e)
      else .ok (fun cluster now => checks mode cluster now)
    | none,none => .ok (fun cluster now => checks mode cluster now)
where
  checks (mode : String) (cluster : Cluster) (now : Int) : Middleware := fun next ctx =>
    match provenCaller cluster c getenv now ctx with
    | .ok name => next {ctx with verifiedCaller := name}
    | .error _ =>
      if mode = modeEnforce then .refused codeForbidden "调用方身份无法验证"
      else next ctx

end ServiceIdentity

section Callers

structure CallerRule where
  methods : List String
  allow : List String
  deriving DecidableEq, Repr

structure CallersConfig where
  default : String
  rules : List CallerRule
  deriving DecidableEq, Repr

def callersAllow : String := "allow"
def callersLog : String := "log"
def callersDeny : String := "deny"

def CallersConfig.defaultPolicy (c : CallersConfig) (getenv : Getenv) : String :=
  let d := if trimmed c.default = "" then trimmed (getenv "CALLERS_DEFAULT") else trimmed c.default
  if d = "" then callersAllow else d

def validateRules : Nat → List CallerRule → Option String
  | _,[] => none
  | i,r::rest =>
    if r.methods = [] ∨ r.allow = [] then
      some ("callers.rules[" ++ toString i ++ "]: methods and allow are both required")
    else if r.methods.any (fun m => trimmed m == "") then
      some ("callers.rules[" ++ toString i ++ "]: empty method name")
    else validateRules (i + 1) rest

def CallersConfig.validate (c : CallersConfig) (getenv : Getenv) : Option String :=
  let d := c.defaultPolicy getenv
  if d ≠ callersAllow ∧ d ≠ callersLog ∧ d ≠ callersDeny then
    some ("callers.default " ++ Text.quote d ++ ": allow, log or deny")
  else validateRules 0 c.rules

abbrev Allowed := AList (fun _ : String => List String)

def allowMethod (allow : List String) (table : Allowed) (m : String) : Allowed :=
  table.insert m ((table.lookup m).getD [] ++ allow)

def allowRule (table : Allowed) (r : CallerRule) : Allowed := r.methods.foldl (allowMethod r.allow) table

def CallersConfig.allowed (c : CallersConfig) : Allowed := c.rules.foldl allowRule ∅

def refuseCaller (method who : String) : Outcome :=
  .refused codeForbidden ((if who = "" then "an unnamed caller" else who) ++ " may not call " ++ method)

def callers (self : String) (c : CallersConfig) (getenv : Getenv) : Middleware := fun next ctx =>
  let allowed := c.allowed
  let policy := c.defaultPolicy getenv
  if allowed.keys = [] ∧ policy = callersAllow then next ctx
  else
    let who := ctx.caller
    if self ≠ "" ∧ who = self then next ctx
    else match allowed.lookup ctx.method,allowed.lookup "*" with
      | none,none => if policy = callersDeny then refuseCaller ctx.method who else next ctx
      | own,all =>
        let admits (list : Option (List String)) (name : String) : Bool := (list.getD []).contains name
        if admits own who || admits own "*" || (who != "" && (admits all who || admits all "*")) then next ctx
        else refuseCaller ctx.method who

end Callers

section Identity

structure IdentityConfig where
  mode : String
  publicKeys : List String
  issuer : String
  requireLogin : String
  gateways : List (String × String)
  anonymous : List String
  deriving DecidableEq, Repr

abbrev Gateways := AList (fun _ : String => String)

namespace IdentityConfig
def effectiveMode (c : IdentityConfig) (getenv : Getenv) : String := modeOf getenv c.mode "IDENTITY_CHECK"
def effectiveRequireLogin (c : IdentityConfig) (getenv : Getenv) : String :=
  modeOf getenv c.requireLogin "IDENTITY_REQUIRE_LOGIN"

def keys (c : IdentityConfig) (getenv : Getenv) : List String :=
  if c.publicKeys ≠ [] then c.publicKeys
  else
    let v := trimmed (getenv "AUTH_JWT_PUBLIC_KEY")
    if v ≠ "" then [v] else []
end IdentityConfig

def addGateway (table : Gateways) (name realm : String) : Except String Gateways :=
  let name := trimmed name
  let realm := trimmed realm
  if name = "" ∨ realmValid realm = false then
    .error ("kitexx: identity.gateways: " ++ Text.quote name ++ ": " ++ Text.quote realm ++
      " is not a realm name (member, admin, agent, or a-z 0-9 _)")
  else .ok (table.insert name realm)

/- The pairs of the section, in the order a range over the map has them. -/
def configuredGateways : Gateways → List (String × String) → Except String Gateways
  | table,[] => .ok table
  | table,(name,realm)::rest => do
    let table ← addGateway table name realm
    configuredGateways table rest

def namedGateways : Gateways → List (List Char) → Except String Gateways
  | table,[] => .ok table
  | table,pair::rest =>
    if trimmed (String.ofList pair) = "" then namedGateways table rest
    else if '=' ∈ pair then do
      let name := pair.takeWhile (fun c => c != '=')
      let realm := (pair.dropWhile (fun c => c != '=')).drop 1
      let table ← addGateway table (String.ofList name) (String.ofList realm)
      namedGateways table rest
    else .error ("kitexx: IDENTITY_GATEWAYS: " ++ Text.quote (String.ofList pair) ++ " is not name=realm")

def IdentityConfig.gatewayRealms (c : IdentityConfig) (getenv : Getenv) : Except String Gateways :=
  if c.gateways ≠ [] then configuredGateways ∅ c.gateways
  else namedGateways ∅ ((getenv "IDENTITY_GATEWAYS").toList.splitOn ',')

def anonymousMethods : List String → Except String (List String)
  | [] => .ok []
  | m::rest =>
    if trimmed m = "" then .error "kitexx: identity.anonymous: empty method name"
    else do
      let others ← anonymousMethods rest
      .ok (trimmed m::others)

/- What IdentityCheck has read when it returns the middleware. -/
structure LoginRules where
  mode : String
  requireLogin : String
  gateways : Gateways
  anonymous : List String
  checker : TokenChecker

section Check
variable (schemes : Schemes) (sidText : Sid → String)

def loginRules (c : IdentityConfig) (getenv : Getenv) : Except String (Option LoginRules) :=
  let mode := c.effectiveMode getenv
  let requireLogin := c.effectiveRequireLogin getenv
  if validMode mode = false then .error ("kitexx: identity.mode " ++ Text.quote mode ++ ": off, log or enforce")
  else if validMode requireLogin = false then
    .error ("kitexx: identity.require_login " ++ Text.quote requireLogin ++ ": off, log or enforce")
  else if mode = modeOff ∧ requireLogin = modeOff then .ok none
  else do
    let gateways ← if requireLogin ≠ modeOff then
        if mode = modeOff ∨ requireLogin = modeEnforce ∧ mode ≠ modeEnforce then
          .error ("kitexx: identity.require_login " ++ requireLogin ++ " needs identity.mode " ++ requireLogin ++
            ": a login that is not verified proves nothing")
        else do
          let gateways ← c.gatewayRealms getenv
          if gateways.keys = [] then
            .error ("kitexx: identity.require_login " ++ requireLogin ++
              " needs identity.gateways (or IDENTITY_GATEWAYS): the services whose calls must carry a login")
          else .ok gateways
      else .ok ∅
    let anonymous ← anonymousMethods c.anonymous
    match newTokenChecker schemes (c.keys getenv) c.issuer with
    | .error e => .error ("kitexx: identity.mode " ++ mode ++ ": " ++ e)
    | .ok checker => .ok (some ⟨mode,requireLogin,gateways,anonymous,checker⟩)

def claimedLogin (r : LoginRules) (now : Int) (ctx : Ctx) (claimed : String) : Except (String × String) Unit :=
  match ctx.userToken with
  | .nothing => .error ("no_token",r.mode)
  | .garbage => .error ("bad_token",r.mode)
  | .token t =>
    match check schemes r.checker now t with
    | .error _ => .error ("bad_token",r.mode)
    | .ok id =>
      if toString id.uid ≠ claimed ∨ id.realm ≠ ctx.realm.getD "" ∨ sidText id.sid ≠ ctx.sid.getD "" then
        .error ("mismatch",r.mode)
      -- a valid login, but not one this gateway logs in
      else if (r.gateways.lookup ctx.caller).any (fun realm => ctx.realm.getD "" != realm) then
        .error ("realm_mismatch",r.requireLogin)
      else .ok ()

def checksLogin (r : LoginRules) (now : Int) : Middleware := fun next ctx =>
  let claimed := ctx.uid.getD ""
  if claimed = "" then
    if (r.gateways.lookup ctx.caller).isNone ∨ r.anonymous.contains ctx.method ∨ r.anonymous.contains "*" then next ctx
    else if r.requireLogin = modeEnforce then .refused codeUnauthenticated "未登录"
    else next ctx
  else match claimedLogin schemes sidText r now ctx claimed with
    | .ok () => next ctx
    | .error (_,decides) =>
      if decides = modeEnforce then .refused codeUnauthenticated "登录已过期，请重新登录"
      else next ctx

def identityCheck (c : IdentityConfig) (getenv : Getenv) : Except String (Int → Middleware) := do
  match ← loginRules schemes c getenv with
  | none => .ok (fun _ => pass)
  | some r => .ok (checksLogin schemes sidText r)

end Check
end Identity

section Options

structure Config where
  name : String
  callers : CallersConfig
  identity : IdentityConfig
  serviceIdentity : ServiceIdentityConfig
  devRoute : Bool

def takeoverIdentity (cfg : Config) (marker : Option String) : ServiceIdentityConfig :=
  if marker = some cfg.name then {cfg.serviceIdentity with mode := modeOff} else cfg.serviceIdentity

/- What one call meets: the limits, the clocks of the two token checks, the keys of the
cluster, what IsValid says, and whether the idempotency store answers. -/
structure Moment where
  busy : Bool
  serviceClock : Int
  userClock : Int
  cluster : Cluster
  invalid : Option String
  answers : Bool

def limits (m : Moment) : Middleware := fun next ctx =>
  if m.busy then .refused codeBusy "服务忙，请稍后重试" else next ctx

def validation (m : Moment) : Middleware := fun next ctx =>
  match m.invalid with
  | some message => .refused codeBadParam message
  | none => next ctx

def idempotency (m : Moment) : Middleware := fun next ctx => if m.answers then .answered else next ctx

def options (schemes : Schemes) (sidText : Sid → String) (cfg : Config) (getenv : Getenv) (marker : Option String)
    (start : Start) : Except String (Moment → List Middleware) :=
  match cfg.callers.validate getenv with
  | some e => .error e
  | none => do
    let identity ← identityCheck schemes sidText cfg.identity getenv
    let svcIdentity ← serviceIdentityCheck (takeoverIdentity cfg marker) getenv start
    .ok (fun m => [limits m,pass,pass,pass,svcIdentity m.cluster m.serviceClock,callers cfg.name cfg.callers getenv,
      identity m.userClock,validation m,idempotency m] ++ if cfg.devRoute then [pass] else [])

def serve (mws : List Middleware) (call : Metadata) : Outcome := chain mws .handled ⟨call,""⟩

end Options
end DevkitCommon.Kitexx.Server
