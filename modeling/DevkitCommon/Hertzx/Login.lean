import DevkitCommon.Hertzx.Document
import DevkitCommon.Kitexx.Identity
import DevkitCommon.Lib.Words

/-! RequireLogin: which requests a gateway lets to a handler and with which login, and how far that
login goes. The document is the operations of the OpenAPI text, none where it cannot be read; which
text is a token stands in decode. -/
namespace DevkitCommon.Hertzx
open Redis Text Authx
open Kitexx.Server (Ctx Sent LoginRules Outcome ServiceToken checksLogin withIdentity withToken loginUID checkMemberUID
  claimedLogin modeEnforce realmMember)

section Gateway

structure Secured where
  path : String
  method : String
  security : Option (List String)
  deriving DecidableEq, Repr

def publicOperations : Option (List Secured) → List String
  | none => []
  | some doc => (doc.filter (fun op => op.security == some [])).map (fun op => upper op.method ++ " " ++ op.path)

def bearerToken (header : String) : String :=
  if 7 < header.toList.length ∧ Words.equalFold (header.toList.take 7) "bearer ".toList then
    String.ofList (Words.trimSpace (header.toList.drop 7))
  else ""

structure Request where
  method : String
  path : String
  authorization : String
  deriving DecidableEq, Repr

def codeUnauthenticated : Nat := 1004
def codeSessionRevoked : Nat := 1005

inductive Answer where
  | next (ctx : Ctx)
  | reject (status code : Nat) (msg : String)
  | rejectRevoked (status code : Nat) (msg reason : String)
  deriving DecidableEq, Repr

def isPublic (spec : Option (List Secured)) (publicPaths : List String) (req : Request) : Bool :=
  isFrameworkPath req.path || (publicOperations spec ++ publicPaths).contains (req.method ++ " " ++ req.path) ||
    (publicOperations spec ++ publicPaths).contains req.path

variable (schemes : Schemes) (sidText : Sid → String) (decode : String → Option AccessToken)

def verifyText (v : Verifier) (now : Int) (r : Reads) (token : String) : Except Refusal Identity :=
  match decode token with
  | none => .error .invalidToken
  | some t => verify schemes v now r t

def sentToken (token : String) : Sent AccessToken :=
  match decode token with
  | none => .garbage
  | some t => .token t

def requireLogin (v : Verifier) (spec : Option (List Secured)) (publicPaths : List String) (now : Int) (r : Reads)
    (req : Request) (ctx : Ctx) : Answer :=
  if isPublic spec publicPaths req then .next ctx
  else
    let token := bearerToken req.authorization
    if token = "" then .reject 401 codeUnauthenticated "未登录"
    else match verifyText schemes decode v now r token with
      | .error (.revoked reason) => .rejectRevoked 401 codeSessionRevoked "会话已失效，请重新登录" reason
      | .error _ => .reject 401 codeUnauthenticated "登录已过期，请重新登录"
      | .ok id => .next (withToken (withIdentity sidText ctx id) (sentToken decode token))

end Gateway

section Chain

structure Hop where
  rules : LoginRules
  now : Int
  method : String
  fromService : String
  svcToken : Sent ServiceToken
  verifiedCaller : String

def Hop.ctx (h : Hop) (ctx : Ctx) : Ctx :=
  {ctx with method := h.method,fromService := h.fromService,svcToken := h.svcToken,verifiedCaller := h.verifiedCaller}

def travels (schemes : Schemes) (sidText : Sid → String) : List Hop → Ctx → Outcome
  | [],ctx => .handled ctx
  | h::rest,ctx => checksLogin schemes sidText h.rules h.now (travels schemes sidText rest) (h.ctx ctx)

/- The service enforces with the gateway's keys and issuer and knows the gateways by their realms;
its clock is not thirty seconds behind the gateway's. -/
structure Trusts (v : Verifier) (now : Int) (h : Hop) : Prop where
  mode : h.rules.mode = modeEnforce
  keys : ∀ kid pub, v.keys.publicKeys.lookup kid = some pub → h.rules.checker.keys.publicKeys.lookup kid = some pub
  issuer : h.rules.checker.issuer = v.cfg.issuerName
  realm : ∀ ctx realm, h.rules.gateways.lookup (h.ctx ctx).caller = some realm → realm = v.cfg.realm
  clock : now ≤ h.now+checkLeeway

end Chain

section Verified
variable {schemes : Schemes} {v : Verifier} {now : Int} {r : Reads} {t : AccessToken} {id : Identity}

theorem verifiedParts (accepted : verify schemes v now r t = .ok id) :
    (signedBy schemes v.keys t = true ∧ t.claims.issuer = v.cfg.issuerName ∧ inTime 0 now t.claims = true) ∧
    t.claims.realm = v.cfg.realm ∧ subjectUID t.claims.subject = some id.uid ∧
    id = ⟨t.claims.realm,id.uid,t.claims.sid,t.claims.id,t.claims.expiresAt⟩ := by
  unfold verify at accepted
  split at accepted <;> try contradiction
  rename_i c parsed
  obtain ⟨parts,rfl⟩ := parseHolds.mp parsed
  split at accepted <;> try contradiction
  rename_i realm
  split at accepted <;> try contradiction
  rename_i uid read
  split at accepted <;> try contradiction
  split at accepted <;> try contradiction
  split at accepted <;> try contradiction
  cases accepted
  exact ⟨parts,not_not.mp realm,read,rfl⟩

theorem signedKnown {k l : KeyRing} (signed : signedBy schemes k t = true) (edDSA : t.alg ≠ some "HS256")
    (known : ∀ kid pub, k.publicKeys.lookup kid = some pub → l.publicKeys.lookup kid = some pub) :
    signedBy schemes l t = true := by
  unfold signedBy at signed
  split at signed
  · rename_i own
    split at signed <;> try contradiction
    rename_i pub found
    exact Kitexx.Server.keySigned own (known _ pub found) signed
  · rename_i shared
    exact absurd (methodHS256.mp shared) edDSA
  · contradiction

theorem checkedUntil {h : Hop} (accepted : verify schemes v now r t = .ok id) (edDSA : t.alg ≠ some "HS256")
    (trusts : Trusts v now h) {exp : Int} (expires : t.claims.expiresAt = some exp) :
    check schemes h.rules.checker h.now t =
      if h.now < exp*second+checkLeeway then .ok id else .error .invalidToken := by
  obtain ⟨⟨signed,issuer,valid⟩,-,read,same⟩ := verifiedParts accepted
  have known := signedKnown signed edDSA trusts.keys
  obtain ⟨-,begun⟩ := inTimeExact.mp valid
  have late : inTime checkLeeway h.now t.claims = true ↔ h.now < exp*second+checkLeeway := by
    rw [inTimeExact]
    constructor
    · intro ⟨⟨other,is,before⟩,_⟩
      cases Option.some.inj (expires.symm.trans is)
      exact before
    · intro before
      refine ⟨⟨exp,expires,before⟩,fun nbf given => ?_⟩
      have earlier := begun nbf given
      have clock := trusts.clock
      omega
  split
  · rename_i before
    have parsed : parse schemes h.rules.checker.keys h.rules.checker.issuer checkLeeway h.now t = some t.claims :=
      parseHolds.mpr ⟨⟨known,issuer.trans trusts.issuer.symm,late.mpr before⟩,rfl⟩
    rw [Kitexx.Server.tokenChecked parsed read,same]
  · rename_i passed
    have refused : parse schemes h.rules.checker.keys h.rules.checker.issuer checkLeeway h.now t = none := by
      cases parsed : parse schemes h.rules.checker.keys h.rules.checker.issuer checkLeeway h.now t with
      | none => rfl
      | some c => exact absurd (late.mp (parseHolds.mp parsed).1.2.2) passed
    rw [check,refused]

end Verified

section Carried
variable {schemes : Schemes} {sidText : Sid → String} {decode : String → Option AccessToken} {v : Verifier}
  {spec : Option (List Secured)} {publicPaths : List String} {now : Int} {r : Reads} {req : Request} {ctx ctx' : Ctx}

structure Carries (sidText : Sid → String) (id : Identity) (t : AccessToken) (ctx : Ctx) : Prop where
  uid : ctx.uid = some (formatInt id.uid)
  realm : ctx.realm = some id.realm
  sid : ctx.sid = some (sidText id.sid)
  token : ctx.userToken = .token t

theorem carriesHop {id : Identity} {t : AccessToken} (carries : Carries sidText id t ctx) (h : Hop) :
    Carries sidText id t (h.ctx ctx) := ⟨carries.uid,carries.realm,carries.sid,carries.token⟩

theorem loginAccepted (next : requireLogin schemes sidText decode v spec publicPaths now r req ctx = .next ctx')
    (guarded : isPublic spec publicPaths req = false) :
    ∃ t id, decode (bearerToken req.authorization) = some t ∧ verify schemes v now r t = .ok id ∧
      Carries sidText id t ctx' := by
  unfold requireLogin at next
  rw [guarded] at next
  simp only [Bool.false_eq_true,if_false] at next
  split at next <;> try contradiction
  split at next <;> try contradiction
  rename_i id accepted
  unfold verifyText at accepted
  split at accepted <;> try contradiction
  rename_i t read
  cases next
  exact ⟨t,id,read,accepted,rfl,rfl,rfl,by simp only [withToken,sentToken,read]⟩

theorem hopPasses {h : Hop} {t : AccessToken} {id : Identity} {exp : Int} {next : Ctx → Outcome}
    (accepted : verify schemes v now r t = .ok id) (edDSA : t.alg ≠ some "HS256") (trusts : Trusts v now h)
    (expires : t.claims.expiresAt = some exp) (carries : Carries sidText id t ctx) :
    checksLogin schemes sidText h.rules h.now next (h.ctx ctx) =
      if h.now < exp*second+checkLeeway then next (h.ctx ctx)
      else .refused Kitexx.Server.codeUnauthenticated "登录已过期，请重新登录" := by
  have checked := checkedUntil accepted edDSA trusts expires
  obtain ⟨-,realm,read,same⟩ := verifiedParts accepted
  have there := carriesHop carries h
  have claimed : formatInt id.uid = (h.ctx ctx).uid.getD "" := by rw [there.uid,Option.getD_some]
  have named : (h.ctx ctx).uid.getD "" ≠ "" := by
    intro empty
    have back := Kitexx.Server.subjectBack read
    rw [claimed,empty] at back
    exact nomatch back
  have idRealm : id.realm = v.cfg.realm := by
    rw [same]
    exact realm
  have gateway : (h.rules.gateways.lookup (h.ctx ctx).caller).any (fun realm => (h.ctx ctx).realm.getD "" != realm) = false := by
    cases found : h.rules.gateways.lookup (h.ctx ctx).caller with
    | none => rfl
    | some other =>
      rw [trusts.realm ctx other found,there.realm,Option.any_some,Option.getD_some,idRealm]
      exact bne_self_eq_false _
  split
  · rename_i before
    rw [if_pos before] at checked
    exact Kitexx.Server.loginProven there.token checked named ((Kitexx.Server.textSame _).trans claimed)
      (by rw [there.realm]; rfl) (by rw [there.sid]; rfl) gateway
  · rename_i passed
    rw [if_neg passed] at checked
    have failed : claimedLogin schemes sidText h.rules h.now (h.ctx ctx) ((h.ctx ctx).uid.getD "") =
        .error ("bad_token",h.rules.mode) := by
      simp only [claimedLogin,there.token,checked]
    simp only [checksLogin,if_neg named,failed,trusts.mode,if_true]

theorem travelsUntil {t : AccessToken} {id : Identity} {exp : Int} (accepted : verify schemes v now r t = .ok id)
    (edDSA : t.alg ≠ some "HS256") (expires : t.claims.expiresAt = some exp) {hops : List Hop}
    (trusts : ∀ h ∈ hops, Trusts v now h) (carries : Carries sidText id t ctx) :
    ((∃ c, travels schemes sidText hops ctx = .handled c) ↔ ∀ h ∈ hops, h.now < exp*second+checkLeeway) ∧
    ∀ c, travels schemes sidText hops ctx = .handled c → Carries sidText id t c := by
  induction hops generalizing ctx with
  | nil =>
    refine ⟨iff_of_true ⟨ctx,rfl⟩ (fun h inside => nomatch inside),fun c handled => ?_⟩
    cases handled
    exact carries
  | cons h rest ih =>
    have passes : checksLogin schemes sidText h.rules h.now (travels schemes sidText rest) (h.ctx ctx) =
        if h.now < exp*second+checkLeeway then travels schemes sidText rest (h.ctx ctx)
        else .refused Kitexx.Server.codeUnauthenticated "登录已过期，请重新登录" :=
      hopPasses accepted edDSA (trusts h List.mem_cons_self) expires carries
    obtain ⟨iff,kept⟩ := ih (fun g inside => trusts g (List.mem_cons_of_mem h inside)) (carriesHop carries h)
    rw [travels,passes,List.forall_mem_cons]
    split
    · rename_i before
      exact ⟨iff.trans (and_iff_right before).symm,kept⟩
    · rename_i passed
      refine ⟨iff_of_false (fun handled => ?_) (fun all => passed all.1),fun c handled => nomatch handled⟩
      obtain ⟨c,handled⟩ := handled
      exact nomatch handled

def player : Verifier := ⟨gateway true [pairKey],(loadKeys pair (gateway true [pairKey])).1⟩

def readToken (s : String) : Option AccessToken := if s = "tok" then some plainToken else none

def balance : Request := ⟨"GET","/balance","bearer tok "⟩

def entering : Ctx := ⟨⟨"","",.nothing,none,none,none,.nothing⟩,""⟩

def admitted : Ctx := {entering with uid := some "42",realm := some "member",sid := some "s0",userToken := .token plainToken}

def way : List Hop :=
  [⟨Kitexx.Server.walletRules,6*second,"Balance","ser-api",.nothing,"ser-api"⟩,
    ⟨Kitexx.Server.walletRules,930*second,"Rates","ser-wallet",.nothing,"ser-wallet"⟩]

theorem playerRing : player.keys = Kitexx.Server.pairRing := by
  have loads : loadKeys pair (gateway true [pairKey]) = _ := pairLoads ⟨rfl,rfl,rfl⟩
  rw [player,loads,Kitexx.Server.pairRing]

theorem wayTrusts : ∀ h ∈ way, Trusts player (5*second) h := by
  have keys (kid : String) (pub : Bytes) (found : player.keys.publicKeys.lookup kid = some pub) :
      Kitexx.Server.walletRules.checker.keys.publicKeys.lookup kid = some pub := by
    rw [playerRing] at found
    exact found
  have realms (caller realm : String) (found : Kitexx.Server.walletRules.gateways.lookup caller = some realm) :
      realm = "member" := by
    by_cases same : caller = "ser-api"
    · rw [same] at found
      exact (Option.some.inj found).symm
    · have none : Kitexx.Server.walletRules.gateways.lookup caller = none := by
        rw [Kitexx.Server.walletRules,AList.lookup_insert_ne same,AList.lookup_empty]
      exact nomatch none.symm.trans found
  intro h inside
  rcases List.mem_cons.mp inside with rfl | rest
  · exact ⟨rfl,keys,rfl,fun ctx realm found => realms _ realm found,by decide⟩
  · rw [List.mem_singleton.mp rest]
    exact ⟨rfl,keys,rfl,fun ctx realm found => realms _ realm found,by decide⟩

theorem balanceNext : requireLogin pair Kitexx.Server.sessionText readToken player (some [⟨"/login","post",some []⟩]) []
    (5*second) (readsLive .ok) balance entering = .next admitted := by
  have signed : signedBy pair player.keys plainToken = true := by
    rw [playerRing]
    exact Kitexx.Server.keySigned (by decide) (show _ = some pairPublic by decide) plainGood
  have parsed : parse pair player.keys player.cfg.issuerName 0 (5*second) plainToken = some plainToken.claims :=
    parseHolds.mpr ⟨⟨signed,rfl,by decide⟩,rfl⟩
  have subject : subjectUID plainToken.claims.subject = some 42 := by decide
  obtain ⟨alive,clear⟩ := readsLiveFinds .ok
  have accepted : verify pair player (5*second) (readsLive .ok) plainToken = .ok ⟨"member",42,0,3,some 900⟩ := by
    have realm : ¬ plainToken.claims.realm ≠ player.cfg.realm := not_not.mpr rfl
    have pipeline : ¬ (readsLive .ok).pipeline ≠ .ok := not_not.mpr rfl
    have clear' : (readsLive .ok).blacklisted plainToken.claims.id = false := clear
    have alive' : (readsLive .ok).alive.alive plainToken.claims.sid = true := alive
    rw [verify,parsed]
    simp only [if_neg realm,subject,if_neg pipeline,clear',alive',Bool.false_eq_true,if_false,if_true]
    rfl
  have guarded : isPublic (some [⟨"/login","post",some []⟩]) [] balance = false := by decide
  have token : bearerToken balance.authorization = "tok" := by decide
  have read : readToken "tok" = some plainToken := if_pos rfl
  have written : formatInt 42 = "42" ∧ Kitexx.Server.sessionText 0 = "s0" := by decide
  have given : "tok" ≠ "" := by decide
  simp only [requireLogin,guarded,token,verifyText,sentToken,read,accepted,withToken,withIdentity,written.1,written.2,
    given,Bool.false_eq_true,if_false]
  rfl

end Carried

end DevkitCommon.Hertzx
