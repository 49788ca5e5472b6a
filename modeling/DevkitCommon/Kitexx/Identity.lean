import DevkitCommon.Kitexx.Authorization

/-! The login in a call's metainfo: how a gateway puts it in, what a handler takes out, and that
behind the check of identity it is the login of a token that verifies. -/
namespace DevkitCommon.Kitexx.Server
open Redis Text Authx

section Handlers

def withIdentity (sidText : Sid → String) (ctx : Ctx) (id : Identity) : Ctx :=
  {ctx with uid := some (formatInt id.uid),realm := some id.realm,sid := some (sidText id.sid)}

def withToken (ctx : Ctx) (token : Sent AccessToken) : Ctx := {ctx with userToken := token}

def Ctx.login (ctx : Ctx) : Option Int := ctx.uid.bind (fun v => (parseInt 64 v).filter (fun uid => 0 < uid))

def Ctx.realmName (ctx : Ctx) : String := ctx.realm.getD ""

structure BizError where
  code : Int
  message : String
  deriving DecidableEq, Repr

def realmMember : String := "member"

def loginUID (ctx : Ctx) : Except BizError Int :=
  match ctx.login with
  | some uid => .ok uid
  | none => .error ⟨codeUnauthenticated,"未登录"⟩

def checkMemberUID (ctx : Ctx) (uid : Int) : Except BizError Unit :=
  if ctx.realmName ≠ realmMember then .ok ()
  else match ctx.login with
    | some cur => if cur ≠ uid then .error ⟨codeForbidden,"没有权限操作其他会员"⟩ else .ok ()
    | none => .ok ()

def requireRealm (ctx : Ctx) (realms : List String) : Except BizError Unit :=
  match ctx.login with
  | none => .error ⟨codeUnauthenticated,"未登录"⟩
  | some _ =>
    if realms.contains ctx.realmName then .ok ()
    else .error ⟨codeForbidden,"此操作不对 " ++ ctx.realmName ++ " 开放"⟩

end Handlers

section Taken
variable {ctx ctx' : Ctx} {uid : Int}

theorem textSame (i : Int) : toString i = formatInt i := by
  cases i <;> rfl

theorem subjectBack {subject : String} (read : subjectUID subject = some uid) :
    (parseInt 64 (formatInt uid)).filter (fun uid => 0 < uid) = some uid := by
  obtain ⟨parsed,positive⟩ := Option.filter_eq_some_iff.mp read
  obtain ⟨-,fits⟩ := Option.filter_eq_some_iff.mp parsed
  rw [parseFormat fits]
  exact Option.filter_eq_some_iff.mpr ⟨rfl,positive⟩

theorem checkedUID {schemes : Schemes} {checker : TokenChecker} {now : Int} {t : AccessToken} {id : Identity}
    (checked : check schemes checker now t = .ok id) : ∃ subject, subjectUID subject = some id.uid := by
  unfold check at checked
  split at checked <;> try contradiction
  split at checked <;> try contradiction
  rename_i uid read
  cases checked
  exact ⟨_,read⟩

theorem loginOf {id : Identity} {subject : String} (read : subjectUID subject = some id.uid)
    (claimed : toString id.uid = ctx.uid.getD "") (given : ctx.uid.getD "" ≠ "") : ctx.login = some id.uid := by
  cases sent : ctx.uid with
  | none =>
    rw [sent] at given
    exact absurd rfl given
  | some text =>
    rw [sent,Option.getD_some,textSame] at claimed
    rw [Ctx.login,sent,Option.bind_some,← claimed]
    exact subjectBack read

theorem loginMember (login : ctx.login = some uid) (member : ctx.realmName = realmMember) (other : Int) :
    checkMemberUID ctx other = .ok () ↔ other = uid := by
  rw [checkMemberUID,if_neg (not_not.mpr member),login]
  dsimp only
  split
  · rename_i apart
    exact iff_of_false (fun ok => nomatch ok) (fun same => apart same.symm)
  · rename_i same
    exact iff_of_true rfl (not_not.mp same).symm

end Taken

section Proven
variable {schemes : Schemes} {sidText : Sid → String} {c : IdentityConfig} {getenv : Getenv} {mw : Int → Middleware}
  {now : Int} {ctx ctx' : Ctx}

theorem gatewayLogin {gateways : Gateways} {realm : String} (made : identityCheck schemes sidText c getenv = .ok mw)
    (mode : c.effectiveMode getenv = modeEnforce) (login : c.effectiveRequireLogin getenv = modeEnforce)
    (listed : c.gatewayRealms getenv = .ok gateways) (gateway : gateways.lookup ctx.caller = some realm)
    (named : ∀ m ∈ c.anonymous, trimmed m ≠ ctx.method ∧ trimmed m ≠ "*")
    (handled : mw now .handled ctx = .handled ctx') :
    ∃ t id, ctx'.userToken = .token t ∧ ctx' = ctx ∧ id.realm = realm ∧
      (∃ checker, newTokenChecker schemes (c.keys getenv) c.issuer = .ok checker ∧ check schemes checker now t = .ok id) ∧
      loginUID ctx' = .ok id.uid ∧ requireRealm ctx' [realm] = .ok () ∧
      (realm = realmMember → ∀ uid, checkMemberUID ctx' uid = .ok () ↔ uid = id.uid) := by
  obtain ⟨r,rfl,enforced,required,realms,anonymous,checker⟩ := identityCheckEnforce made mode login
  obtain rfl := Except.ok.inj (realms.symm.trans listed)
  obtain ⟨either,same⟩ := loginPasses enforced required anonymous handled
  cases same
  rcases either with ⟨absent,free⟩ | ⟨t,id,sent,checked,claimed,realmSame,-,ofGateway⟩
  · rcases free with none | ⟨m,inside,own⟩
    · exact nomatch none.symm.trans gateway
    · exact absurd own (not_or.mpr (named m inside))
  · obtain ⟨subject,read⟩ := checkedUID checked
    have idRealm := ofGateway realm gateway
    have realmName : ctx.realmName = realm := realmSame.symm.trans idRealm
    have given : ctx.uid.getD "" ≠ "" := by
      intro empty
      rw [empty,textSame] at claimed
      have back := subjectBack read
      rw [claimed] at back
      exact nomatch back
    have login := loginOf read claimed given
    refine ⟨t,id,sent,rfl,idRealm,⟨r.checker,checker,checked⟩,?_,?_,fun member => ?_⟩
    · rw [loginUID,login]
    · rw [requireRealm,login]
      simp only [realmName,List.contains_cons,beq_self_eq_true,Bool.true_or,if_true]
    · exact loginMember login (realmName.trans member)

def debited : Ctx := ⟨debitCall,"ser-api"⟩

theorem debitHandled : checksLogin pair sessionText walletRules (5*second) .handled debited = .handled debited :=
  loginProven rfl plainChecked (by decide) rfl rfl rfl (by decide)

theorem debitOwn : ∃ t id, debited.userToken = .token t ∧ debited = debited ∧ id.realm = "member" ∧
    (∃ checker, newTokenChecker pair (wallet.identity.keys noEnv) wallet.identity.issuer = .ok checker ∧
      check pair checker (5*second) t = .ok id) ∧
    loginUID debited = .ok id.uid ∧ requireRealm debited ["member"] = .ok () ∧
    ("member" = realmMember → ∀ uid, checkMemberUID debited uid = .ok () ↔ uid = id.uid) := by
  have methods : ∀ m ∈ wallet.identity.anonymous, trimmed m ≠ debited.method ∧ trimmed m ≠ "*" := by decide
  exact gatewayLogin walletLogin (by decide) (by decide) rfl rfl methods debitHandled

end Proven

end DevkitCommon.Kitexx.Server
