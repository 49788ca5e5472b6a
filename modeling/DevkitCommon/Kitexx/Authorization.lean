import DevkitCommon.Kitexx.Checks
import DevkitCommon.Authx.Acceptance

/-! What a call has passed when its handler runs. Each check is shown to pass exactly what
its rule says of the call alone; the order of Options puts the rules together, for callers and
identity ask for the name that the check before them has proven. -/
namespace DevkitCommon.Kitexx.Server
open Redis Text Authx

variable {getenv : Getenv} {ctx : Ctx} {next : Endpoint} {name : String}

section ServiceIdentity
variable (cluster : Cluster) (c : ServiceIdentityConfig)

structure ValidServiceToken (now : Int) (t : ServiceToken) (ns name : String) : Prop where
  alg : t.alg = some "RS256"
  signed : ∃ key, cluster.keys (t.kid.getD "") = some key ∧ cluster.rsaVerify key t.message t.signature = true
  issuer : t.issuer = c.issuerName
  audience : c.audienceName ∈ t.audience
  unexpired : ∃ exp, t.expiresAt = some exp ∧ now < exp*second + 30*second
  begun : ∀ nbf, t.notBefore = some nbf → nbf*second ≤ now + 30*second
  subject : t.subject = "system:serviceaccount:" ++ ns ++ ":" ++ name
  named : ns ≠ "" ∧ name ≠ "" ∧ ':' ∉ ns.toList

def AllowedNamespace (getenv : Getenv) (ns : String) : Prop := ∀ list, c.allowedNS getenv = some list → ns ∈ list

def Proven (getenv : Getenv) (now : Int) (call : Metadata) (name : String) : Prop :=
  ∃ t ns, call.svcToken = .token t ∧ ValidServiceToken cluster c now t ns name ∧ AllowedNamespace c getenv ns ∧
    name = call.fromService

variable {cluster c} {now : Int} {t : ServiceToken} {ns : String}

theorem serviceAccountNames {subject : String} (found : serviceAccount subject = some (ns,name)) :
    subject = "system:serviceaccount:" ++ ns ++ ":" ++ name ∧ ns ≠ "" ∧ name ≠ "" ∧ ':' ∉ ns.toList := by
  unfold serviceAccount at found
  dsimp only at found
  split at found <;> try contradiction
  rename_i start
  split at found <;> try contradiction
  rename_i full
  rw [not_or] at full
  simp only [Option.some.injEq,Prod.mk.injEq] at found
  obtain ⟨rfl,rfl⟩ := found
  obtain ⟨rest,whole⟩ := List.isPrefixOf_iff_prefix.mp start
  have drops : subject.toList.drop saSubjectPrefix.toList.length = rest := by
    rw [← whole,List.drop_left]
  rw [drops] at full ⊢
  obtain ⟨splits,out⟩ := cutSplits full.2
  refine ⟨?_,by simpa using full.1,by simpa using full.2,?_⟩
  · rw [← String.toList_inj]
    simp only [String.toList_append,String.toList_ofList]
    rw [← whole]
    conv => lhs; rw [splits]
    simp [saSubjectPrefix]
  · rwa [String.toList_ofList]

theorem serviceTokenValid (checked : checkServiceToken cluster c now t = some (ns,name)) :
    ValidServiceToken cluster c now t ns name := by
  unfold checkServiceToken at checked
  split at checked <;> try contradiction
  rename_i alg
  split at checked <;> try contradiction
  rename_i key found
  split at checked <;> try contradiction
  rename_i good
  obtain ⟨signed,issuer,audience,inTime⟩ := good
  simp only [timely,Bool.and_eq_true,Option.any_eq_true,Option.all_eq_true,decide_eq_true_eq] at inTime
  obtain ⟨subject,named⟩ := serviceAccountNames checked
  exact ⟨Decidable.not_not.mp alg,⟨key,found,signed⟩,issuer,audience,inTime.1,inTime.2,subject,named⟩

theorem callerProven (proven : provenCaller cluster c getenv now ctx = .ok name) :
    Proven cluster c getenv now ctx.toMetadata name := by
  unfold provenCaller at proven
  split at proven <;> try contradiction
  rename_i t sent
  split at proven <;> try contradiction
  rename_i ns name' checked
  split at proven <;> try contradiction
  rename_i allowed
  split at proven <;> try contradiction
  rename_i same
  cases proven
  refine ⟨t,ns,sent,serviceTokenValid checked,fun list listed => ?_,Decidable.not_not.mp same⟩
  rw [listed] at allowed
  simpa using allowed

theorem identityPasses {start : Start} {mw : Cluster → Int → Middleware} {ctx' : Ctx}
    (made : serviceIdentityCheck c getenv start = .ok mw) (enforce : c.effectiveMode getenv = modeEnforce)
    (passes : mw cluster now next ctx = .handled ctx') :
    ∃ name, Proven cluster c getenv now ctx.toMetadata name ∧ next {ctx with verifiedCaller := name} = .handled ctx' := by
  unfold serviceIdentityCheck at made
  rw [enforce] at made
  have checks : mw = fun cluster now => serviceIdentityCheck.checks c getenv modeEnforce cluster now := by
    cases opened : start.opened with
    | some e => simp [opened,modeEnforce,modeOff] at made
    | none =>
      cases fetched : start.fetched with
      | some e => simp [opened,fetched,modeEnforce,modeOff] at made
      | none => simpa [opened,fetched,modeEnforce,modeOff] using made.symm
  subst checks
  simp only [serviceIdentityCheck.checks,if_true] at passes
  split at passes
  · rename_i name proven
    exact ⟨name,callerProven proven,passes⟩
  · contradiction

end ServiceIdentity

section Callers

def CallerRule.About (r : CallerRule) (method : String) : Prop := method ∈ r.methods ∨ "*" ∈ r.methods

def Admits (self : String) (c : CallersConfig) (getenv : Getenv) (name method : String) : Prop :=
  name = self ∨ (∃ r ∈ c.rules, r.About method ∧ (name ∈ r.allow ∨ "*" ∈ r.allow)) ∨
    (∀ r ∈ c.rules, ¬ r.About method) ∧ c.defaultPolicy getenv ≠ "deny"

variable {c : CallersConfig} {self : String} {rules : List CallerRule}

structure Tables (table : Allowed) (names : String → Prop) (lists : String → String → Prop) : Prop where
  named : ∀ m, (table.lookup m).isSome = true ↔ names m
  listed : ∀ m caller, caller ∈ (table.lookup m).getD [] ↔ lists m caller

theorem allowMethodTables {table : Allowed} {names : String → Prop} {lists : String → String → Prop}
    {allow : List String} {m : String} (holds : Tables table names lists) : Tables (allowMethod allow table m)
      (fun k => names k ∨ k = m) (fun k caller => lists k caller ∨ k = m ∧ caller ∈ allow) := by
  constructor
  · intro k
    by_cases same : k = m
    · subst same
      simp only [allowMethod,AList.lookup_insert,Option.isSome_some,or_true]
    · simp only [allowMethod,AList.lookup_insert_ne same,holds.named k,same,or_false]
  · intro k caller
    by_cases same : k = m
    · subst same
      simp only [allowMethod,AList.lookup_insert,Option.getD_some,List.mem_append,holds.listed k caller,true_and]
    · simp only [allowMethod,AList.lookup_insert_ne same,holds.listed k caller,same,false_and,or_false]

theorem tablesSame {table : Allowed} {names names' : String → Prop} {lists lists' : String → String → Prop}
    (holds : Tables table names lists) (same : ∀ m, names' m ↔ names m)
    (same' : ∀ m caller, lists' m caller ↔ lists m caller) : Tables table names' lists' :=
  ⟨fun m => (holds.named m).trans (same m).symm,fun m caller => (holds.listed m caller).trans (same' m caller).symm⟩

theorem allowRuleTables {table : Allowed} {names : String → Prop} {lists : String → String → Prop} {allow methods : List String}
    (holds : Tables table names lists) : Tables (methods.foldl (allowMethod allow) table)
      (fun k => names k ∨ k ∈ methods) (fun k caller => lists k caller ∨ k ∈ methods ∧ caller ∈ allow) := by
  induction methods generalizing table names lists with
  | nil => exact tablesSame holds (fun _ => by simp) (fun _ _ => by simp)
  | cons m rest ih =>
    refine tablesSame (ih (allowMethodTables holds)) (fun k => ?_) (fun k caller => ?_)
    · rw [List.mem_cons,or_assoc]
    · rw [List.mem_cons,or_and_right,or_assoc]

theorem rulesTables {table : Allowed} {names : String → Prop} {lists : String → String → Prop}
    (holds : Tables table names lists) : Tables (rules.foldl allowRule table)
      (fun k => names k ∨ ∃ r ∈ rules, k ∈ r.methods)
      (fun k caller => lists k caller ∨ ∃ r ∈ rules, k ∈ r.methods ∧ caller ∈ r.allow) := by
  induction rules generalizing table names lists with
  | nil => exact tablesSame holds (fun _ => by simp) (fun _ _ => by simp)
  | cons r rest ih =>
    have first : Tables (allowRule table r) _ _ := allowRuleTables holds
    refine tablesSame (ih first) (fun k => ?_) (fun k caller => ?_)
    · simp only [List.exists_mem_cons_iff,or_assoc]
    · simp only [List.exists_mem_cons_iff,or_assoc]

theorem allowedTables : Tables c.allowed (fun m => ∃ r ∈ c.rules, m ∈ r.methods)
    (fun m caller => ∃ r ∈ c.rules, m ∈ r.methods ∧ caller ∈ r.allow) := by
  have empty : Tables ∅ (fun _ => False) (fun _ _ => False) := ⟨fun m => by simp,fun m caller => by simp⟩
  exact tablesSame (rulesTables empty) (fun _ => by simp) (fun _ _ => by simp)

theorem unruled {m : String} (missing : c.allowed.lookup m = none) : ∀ r ∈ c.rules, m ∉ r.methods := by
  intro r mem named
  have found := (allowedTables.named m).mpr ⟨r,mem,named⟩
  rw [missing] at found
  contradiction

theorem callersPass {ctx' : Ctx} (passes : callers self c getenv next ctx = .handled ctx') :
    Admits self c getenv ctx.caller ctx.method ∧ next ctx = .handled ctx' := by
  have free (none' : c.allowed.lookup ctx.method = none) (none'' : c.allowed.lookup "*" = none)
      (policy : c.defaultPolicy getenv ≠ callersDeny) : Admits self c getenv ctx.caller ctx.method :=
    .inr (.inr ⟨fun r mem about => about.elim (unruled none' r mem) (unruled none'' r mem),policy⟩)
  have ruled {m who : String} (about : m = ctx.method ∨ m = "*") (who' : who = ctx.caller ∨ who = "*")
      (listed : who ∈ (c.allowed.lookup m).getD []) : Admits self c getenv ctx.caller ctx.method := by
    obtain ⟨r,mem,method,allow⟩ := (allowedTables.listed m who).mp listed
    refine .inr (.inl ⟨r,mem,?_,?_⟩)
    · rcases about with rfl | rfl
      · exact .inl method
      · exact .inr method
    · rcases who' with rfl | rfl
      · exact .inl allow
      · exact .inr allow
  unfold callers at passes
  dsimp only at passes
  split at passes
  · rename_i off
    have none' (m : String) : c.allowed.lookup m = none :=
      AList.lookup_eq_none.mpr (fun mem => by rw [AList.mem_keys,off.1] at mem; exact absurd mem List.not_mem_nil)
    exact ⟨free (none' _) (none' _) (by rw [off.2]; decide),passes⟩
  · split at passes
    · rename_i own
      exact ⟨.inl own.2,passes⟩
    · split at passes
      · rename_i none' none''
        split at passes
        · simp [refuseCaller] at passes
        · exact ⟨free none' none'' (by assumption),passes⟩
      · split at passes
        · rename_i admits
          simp only [Bool.or_eq_true,Bool.and_eq_true,List.contains_iff_mem] at admits
          rcases admits with (listed | all) | ⟨-,listed | all⟩
          · exact ⟨ruled (.inl rfl) (.inl rfl) listed,passes⟩
          · exact ⟨ruled (.inl rfl) (.inr rfl) all,passes⟩
          · exact ⟨ruled (.inr rfl) (.inl rfl) listed,passes⟩
          · exact ⟨ruled (.inr rfl) (.inr rfl) all,passes⟩
        · simp [refuseCaller] at passes

end Callers
section Identity
variable (schemes : Schemes) (sidText : Sid → String) (c : IdentityConfig)

def WithoutLogin (gateways : Gateways) (call : Metadata) (name : String) : Prop :=
  call.uid.getD "" = "" ∧ (gateways.lookup name = none ∨
    ∃ m ∈ c.anonymous, trimmed m = call.method ∨ trimmed m = "*")

def WithLogin (gateways : Gateways) (checker : TokenChecker) (now : Int) (call : Metadata) (name : String) : Prop :=
  ∃ t id, call.userToken = .token t ∧ check schemes checker now t = .ok id ∧ toString id.uid = call.uid.getD "" ∧
    id.realm = call.realm.getD "" ∧ sidText id.sid = call.sid.getD "" ∧
    ∀ realm, gateways.lookup name = some realm → id.realm = realm

def LoginSound (getenv : Getenv) (now : Int) (call : Metadata) (name : String) : Prop :=
  ∃ gateways checker, c.gatewayRealms getenv = .ok gateways ∧
    newTokenChecker schemes (c.keys getenv) c.issuer = .ok checker ∧
    (WithoutLogin c gateways call name ∨ WithLogin schemes sidText gateways checker now call name)

variable {schemes sidText c} {now : Int} {r : LoginRules}

theorem anonymousTrimmed {l ms : List String} (read : anonymousMethods l = .ok ms) : ms = l.map trimmed := by
  induction l generalizing ms with
  | nil => cases read; rfl
  | cons m rest ih =>
    unfold anonymousMethods at read
    split at read
    · simp only [reduceCtorEq] at read
    cases others : anonymousMethods rest with
    | error e => simp only [others,bind,Except.bind,reduceCtorEq] at read
    | ok found =>
      rw [others] at read
      cases read
      rw [ih others,List.map_cons]

theorem loginRulesEnforce {rules : Option LoginRules} (read : loginRules schemes c getenv = .ok rules)
    (mode : c.effectiveMode getenv = modeEnforce) (login : c.effectiveRequireLogin getenv = modeEnforce) :
    ∃ r, rules = some r ∧ r.mode = modeEnforce ∧ r.requireLogin = modeEnforce ∧
      c.gatewayRealms getenv = .ok r.gateways ∧ r.anonymous = c.anonymous.map trimmed ∧
      newTokenChecker schemes (c.keys getenv) c.issuer = .ok r.checker := by
  unfold loginRules at read
  rw [mode,login] at read
  cases gateways : c.gatewayRealms getenv with
  | error e => simp [gateways,modeEnforce,modeOff,validMode,modeLog,bind,Except.bind] at read
  | ok table =>
    by_cases empty : table.keys = []
    · simp [gateways,empty,modeEnforce,modeOff,validMode,modeLog,bind,Except.bind] at read
    · cases methods : anonymousMethods c.anonymous with
      | error e => simp [gateways,empty,methods,modeEnforce,modeOff,validMode,modeLog,bind,Except.bind] at read
      | ok ms =>
        cases made : newTokenChecker schemes (c.keys getenv) c.issuer with
        | error e => simp [gateways,empty,methods,made,modeEnforce,modeOff,validMode,modeLog,bind,Except.bind] at read
        | ok checker =>
          have same : some ⟨modeEnforce,modeEnforce,table,ms,checker⟩ = rules := by
            simpa [gateways,empty,methods,made,modeEnforce,modeOff,validMode,modeLog,bind,Except.bind] using read
          exact ⟨_,same.symm,rfl,rfl,rfl,anonymousTrimmed methods,rfl⟩

theorem claimedProven {claimed : String} (proven : claimedLogin schemes sidText r now ctx claimed = .ok ()) :
    ∃ t id, ctx.userToken = .token t ∧ check schemes r.checker now t = .ok id ∧ toString id.uid = claimed ∧
      id.realm = ctx.realm.getD "" ∧ sidText id.sid = ctx.sid.getD "" ∧
      ∀ realm, r.gateways.lookup ctx.caller = some realm → id.realm = realm := by
  unfold claimedLogin at proven
  split at proven <;> try contradiction
  rename_i t sent
  split at proven <;> try contradiction
  rename_i id checked
  split at proven <;> try contradiction
  rename_i same
  split at proven <;> try contradiction
  rename_i realms
  simp only [not_or,ne_eq,Decidable.not_not] at same
  obtain ⟨uid,realm,sid⟩ := same
  refine ⟨t,id,sent,checked,uid,realm,sid,fun own found => ?_⟩
  rw [found] at realms
  rw [realm]
  simpa using realms

theorem failedDecides {claimed what decides : String}
    (failed : claimedLogin schemes sidText r now ctx claimed = .error (what,decides)) :
    decides = r.mode ∨ decides = r.requireLogin := by
  unfold claimedLogin at failed
  split at failed
  · cases failed; exact .inl rfl
  · cases failed; exact .inl rfl
  split at failed
  · cases failed; exact .inl rfl
  split at failed
  · cases failed; exact .inl rfl
  split at failed
  · cases failed; exact .inr rfl
  · contradiction

theorem loginPasses {ctx' : Ctx} (mode : r.mode = modeEnforce) (login : r.requireLogin = modeEnforce)
    (anonymous : r.anonymous = c.anonymous.map trimmed)
    (passes : checksLogin schemes sidText r now next ctx = .handled ctx') :
    (WithoutLogin c r.gateways ctx.toMetadata ctx.caller ∨
      WithLogin schemes sidText r.gateways r.checker now ctx.toMetadata ctx.caller) ∧ next ctx = .handled ctx' := by
  unfold checksLogin at passes
  dsimp only at passes
  split at passes
  · rename_i absent
    split at passes
    · rename_i open'
      refine ⟨.inl ⟨absent,?_⟩,passes⟩
      rw [Option.isNone_iff_eq_none,anonymous] at open'
      simp only [List.contains_iff_mem,List.mem_map] at open'
      rcases open' with other | ⟨m,mem,same⟩ | ⟨m,mem,same⟩
      · exact .inl other
      · exact .inr ⟨m,mem,.inl same⟩
      · exact .inr ⟨m,mem,.inr same⟩
    · contradiction
  · split at passes
    · rename_i proven
      exact ⟨.inr (claimedProven proven),passes⟩
    · rename_i what decides failed
      -- whichever of the two modes decides, it refuses
      have enforced : decides = modeEnforce := (failedDecides failed).elim (·.trans mode) (·.trans login)
      rw [if_pos enforced] at passes
      contradiction

end Identity
section Options

structure Authorized (schemes : Schemes) (sidText : Sid → String) (cfg : Config) (marker : Option String)
    (getenv : Getenv) (m : Moment) (call : Metadata) : Prop where
  proven : Proven m.cluster (takeoverIdentity cfg marker) getenv m.serviceClock call call.fromService
  admitted : Admits cfg.name cfg.callers getenv call.fromService call.method
  login : LoginSound schemes sidText cfg.identity getenv m.userClock call call.fromService

variable {schemes : Schemes} {sidText : Sid → String}

theorem limitsPass {m : Moment} {ctx' : Ctx} (passes : limits m next ctx = .handled ctx') : next ctx = .handled ctx' := by
  unfold limits at passes
  split at passes
  · contradiction
  · exact passes

theorem validationPasses {m : Moment} {ctx' : Ctx} (passes : validation m next ctx = .handled ctx') :
    next ctx = .handled ctx' := by
  unfold validation at passes
  split at passes
  · contradiction
  · exact passes

theorem idempotencyPasses {m : Moment} {ctx' : Ctx} (passes : idempotency m next ctx = .handled ctx') :
    next ctx = .handled ctx' := by
  unfold idempotency at passes
  split at passes
  · contradiction
  · exact passes

theorem identityCheckEnforce {c : IdentityConfig} {mw : Int → Middleware}
    (made : identityCheck schemes sidText c getenv = .ok mw) (mode : c.effectiveMode getenv = modeEnforce)
    (login : c.effectiveRequireLogin getenv = modeEnforce) :
    ∃ r, mw = checksLogin schemes sidText r ∧ r.mode = modeEnforce ∧ r.requireLogin = modeEnforce ∧
      c.gatewayRealms getenv = .ok r.gateways ∧ r.anonymous = c.anonymous.map trimmed ∧
      newTokenChecker schemes (c.keys getenv) c.issuer = .ok r.checker := by
  unfold identityCheck at made
  cases read : loginRules schemes c getenv with
  | error e =>
    simp only [read,bind,Except.bind,reduceCtorEq] at made
  | ok rules =>
    obtain ⟨r,rfl,facts⟩ := loginRulesEnforce read mode login
    rw [read] at made
    cases made
    exact ⟨r,rfl,facts⟩

theorem optionsOrder {cfg : Config} {marker : Option String} {start : Start} {mws : Moment → List Middleware}
    (made : options schemes sidText cfg getenv marker start = .ok mws) : ∃ identity svcIdentity,
      identityCheck schemes sidText cfg.identity getenv = .ok identity ∧
      serviceIdentityCheck (takeoverIdentity cfg marker) getenv start = .ok svcIdentity ∧
      ∀ m, mws m = [limits m,pass,pass,pass,svcIdentity m.cluster m.serviceClock,callers cfg.name cfg.callers getenv,
        identity m.userClock,validation m,idempotency m] ++ if cfg.devRoute then [pass] else [] := by
  unfold options at made
  split at made
  · simp only [reduceCtorEq] at made
  · cases identity : identityCheck schemes sidText cfg.identity getenv with
    | error e =>
      simp only [identity,bind,Except.bind,reduceCtorEq] at made
    | ok idMw =>
      cases svcIdentity : serviceIdentityCheck (takeoverIdentity cfg marker) getenv start with
      | error e =>
        simp only [identity,svcIdentity,bind,Except.bind,reduceCtorEq] at made
      | ok svcMw =>
        simp only [identity,svcIdentity,bind,Except.bind,Except.ok.injEq] at made
        exact ⟨idMw,svcMw,rfl,rfl,fun m => by rw [← made]⟩

theorem chainCons {mw : Middleware} {rest : List Middleware} {handler : Endpoint} :
    chain (mw::rest) handler = mw (chain rest handler) := rfl

theorem handledAuthorized (schemes : Schemes) (sidText : Sid → String) (cfg : Config) (getenv : Getenv)
    (marker : Option String) (start : Start) (mws : Moment → List Middleware) (m : Moment) (call : Metadata) (ctx : Ctx)
    (made : options schemes sidText cfg getenv marker start = .ok mws)
    (service : (takeoverIdentity cfg marker).effectiveMode getenv = modeEnforce)
    (identity : cfg.identity.effectiveMode getenv = modeEnforce)
    (login : cfg.identity.effectiveRequireLogin getenv = modeEnforce)
    (handled : serve (mws m) call = .handled ctx) :
    Authorized schemes sidText cfg marker getenv m call ∧ ctx = ⟨call,call.fromService⟩ := by
  obtain ⟨idMw,svcMw,idMade,svcMade,order⟩ := optionsOrder made
  obtain ⟨r,rfl,mode,requires,gateways,anonymous,checker⟩ := identityCheckEnforce idMade identity login
  rw [serve,order m] at handled
  simp only [List.cons_append,List.nil_append,chainCons,pass] at handled
  obtain ⟨name,proven,handled⟩ := identityPasses svcMade service (limitsPass handled)
  obtain ⟨t,ns,sent,valid,allowed,rfl⟩ := proven
  have named : (⟨call,call.fromService⟩ : Ctx).caller = call.fromService := if_pos valid.named.2.1
  obtain ⟨admitted,handled⟩ := callersPass handled
  obtain ⟨loggedIn,handled⟩ := loginPasses mode requires anonymous handled
  rw [named] at admitted loggedIn
  refine ⟨⟨⟨t,ns,sent,valid,allowed,rfl⟩,admitted,⟨r.gateways,r.checker,gateways,checker,loggedIn⟩⟩,?_⟩
  have last := idempotencyPasses (validationPasses handled)
  have same : chain (if cfg.devRoute then [pass] else []) Outcome.handled = Outcome.handled := by
    split <;> rfl
  rw [same] at last
  exact (Outcome.handled.inj last).symm

def clusterKey : Bytes :=
  [226,20,9,25,227,202,46,117,219,34,213,163,235,235,75,210,164,122,201,54,133,23,145,227,17,107,43,
   135,219,18,247,201,18,46,34,57,88,85,124,177,36,174,168,223,18,220,221,106,171,178,132,59,88,158,
   154,74,27,105,68,5,208,46,89,162,74,182,232,91,189,186,58,177,121,221,85,205,224,32,100,247,245,
   238,126,239,17,181,236,250,10,165,180,112,13,74,64,25,223,23,112,236,233,143,80,96,91,82,39,184,
   149,156,87,214,22,6,4,103,252,96,210,42,214,84,36,2,66,173,139,249]
def gatewayMessage : Bytes := utf8 ("eyJhbGciOiJSUzI1NiIsImtpZCI6ImsxIn0." ++
  "eyJhdWQiOlsic3BvcnRzYm9vay1ycGMiXSwiZXhwIjozNjAwLCJpc3MiOiJodHRwczovL2t1YmVybmV0ZXMuZGVmYXVsdC5zdmMuY2x1c3Rlci5sb2Nh" ++
  "bCIsInN1YiI6InN5c3RlbTpzZXJ2aWNlYWNjb3VudDpzcG9ydHM6c2VyLWFwaSJ9").toList
def gatewaySignature : Bytes :=
  [57,108,5,172,173,188,62,224,116,68,93,173,80,87,62,80,54,104,115,28,113,101,227,115,129,127,138,
   39,130,245,37,209,248,139,153,90,172,233,196,89,88,175,2,204,179,190,157,63,47,173,149,193,221,
   102,204,234,101,33,179,117,128,77,110,126,32,152,76,120,229,134,226,179,59,107,121,14,194,224,
   181,190,214,18,84,1,139,136,201,3,77,51,128,183,15,18,179,151,254,22,61,39,47,74,118,136,186,200,
   206,83,160,90,195,181,163,172,163,101,197,8,38,254,79,174,11,230,57,115,48,144]

def cluster : Cluster where
  rsaVerify key text signature := decide (key = clusterKey ∧ text = gatewayMessage ∧ signature = gatewaySignature)
  keys kid := if kid = "k1" then some clusterKey else none

def gatewayToken : ServiceToken where
  alg := some "RS256"
  kid := some "k1"
  issuer := "https://kubernetes.default.svc.cluster.local"
  audience := ["sportsbook-rpc"]
  subject := "system:serviceaccount:sports:ser-api"
  expiresAt := some 3600
  notBefore := none
  message := gatewayMessage
  signature := gatewaySignature

def wallet : Config where
  name := "ser-wallet"
  callers := ⟨"deny",[⟨["Debit"],["ser-api"]⟩]⟩
  identity := ⟨"enforce",[pairKey],"","enforce",[("ser-api","member")],["Register"]⟩
  serviceIdentity := ⟨"enforce","","","",["sports"]⟩
  devRoute := false

def sessionText (sid : Sid) : String := "s" ++ toString sid
def noEnv : Getenv := fun _ => ""
def quiet : Moment := ⟨false,5*second,5*second,cluster,none,false⟩
def debitCall : Metadata :=
  ⟨"Debit","ser-api",.token gatewayToken,some "42",some "member",some "s0",.token plainToken⟩

section Through
variable {schemes : Schemes} {sidText : Sid → String} {next : Endpoint} {ctx : Ctx} {m : Moment}

theorem limitsFree (free : m.busy = false) : limits m next ctx = next ctx := by simp [limits,free]
theorem validationFree (valid : m.invalid = none) : validation m next ctx = next ctx := by simp [validation,valid]
theorem idempotencyFree (first : m.answers = false) : idempotency m next ctx = next ctx := by simp [idempotency,first]

theorem tokenProven {cluster : Cluster} {c : ServiceIdentityConfig} {getenv : Getenv} {now : Int} {t : ServiceToken}
    {ns name : String} (sent : ctx.svcToken = .token t) (checked : checkServiceToken cluster c now t = some (ns,name))
    (inside : (c.allowedNS getenv).any (fun list => !list.contains ns) = false) (same : name = ctx.fromService) :
    provenCaller cluster c getenv now ctx = .ok name := by
  simp only [provenCaller,sent,checked,inside,same,Bool.false_eq_true,if_false,ne_eq,not_true_eq_false]

theorem callerAdmitted {self : String} {c : CallersConfig} {getenv : Getenv} {list : List String}
    (other : ctx.caller ≠ self) (found : c.allowed.lookup ctx.method = some list)
    (listed : list.contains ctx.caller = true) : callers self c getenv next ctx = next ctx := by
  unfold callers
  simp only [found]
  split
  · rfl
  · split
    · rename_i own
      exact absurd own.2 other
    · simp only [Option.getD_some,listed,Bool.true_or,if_true]

theorem loginProven {r : LoginRules} {now : Int} {t : AccessToken} {id : Identity} (sent : ctx.userToken = .token t)
    (checked : check schemes r.checker now t = .ok id) (named : ctx.uid.getD "" ≠ "") (uid : toString id.uid = ctx.uid.getD "")
    (realm : id.realm = ctx.realm.getD "") (sid : sidText id.sid = ctx.sid.getD "")
    (gateway : (r.gateways.lookup ctx.caller).any (fun realm => ctx.realm.getD "" != realm) = false) :
    checksLogin schemes sidText r now next ctx = next ctx := by
  have claimed : claimedLogin schemes sidText r now ctx (ctx.uid.getD "") = .ok () := by
    simp [claimedLogin,sent,checked,uid,realm,sid,gateway]
  simp only [checksLogin,if_neg named,claimed]

theorem servePassed {c : ServiceIdentityConfig} {getenv : Getenv} {mode name self : String} {cc : CallersConfig}
    {r : LoginRules} {call : Metadata} (free : m.busy = false)
    (proven : provenCaller m.cluster c getenv m.serviceClock ⟨call,""⟩ = .ok name)
    (admitted : ∀ next, callers self cc getenv next ⟨call,name⟩ = next ⟨call,name⟩)
    (login : ∀ next, checksLogin schemes sidText r m.userClock next ⟨call,name⟩ = next ⟨call,name⟩)
    (valid : m.invalid = none) (first : m.answers = false) :
    serve [limits m,pass,pass,pass,serviceIdentityCheck.checks c getenv mode m.cluster m.serviceClock,
      callers self cc getenv,checksLogin schemes sidText r m.userClock,validation m,idempotency m] call =
      .handled ⟨call,name⟩ := by
  simp only [serve,chainCons,pass,limitsFree free,serviceIdentityCheck.checks,proven,admitted,login,
    validationFree valid,idempotencyFree first]
  rfl

theorem optionsMade {cfg : Config} {getenv : Getenv} {marker : Option String} {start : Start} {login : Int → Middleware}
    {service : Cluster → Int → Middleware} (valid : cfg.callers.validate getenv = none)
    (loginMade : identityCheck schemes sidText cfg.identity getenv = .ok login)
    (serviceMade : serviceIdentityCheck (takeoverIdentity cfg marker) getenv start = .ok service)
    (plain : cfg.devRoute = false) : options schemes sidText cfg getenv marker start =
      .ok (fun m => [limits m,pass,pass,pass,service m.cluster m.serviceClock,callers cfg.name cfg.callers getenv,
        login m.userClock,validation m,idempotency m]) := by
  unfold options
  simp only [valid,loginMade,serviceMade,plain,bind,Except.bind,Bool.false_eq_true,if_false,List.append_nil]

theorem loginMade {c : IdentityConfig} {getenv : Getenv} {r : LoginRules} (mode : c.effectiveMode getenv = modeEnforce)
    (login : c.effectiveRequireLogin getenv = modeEnforce) (both : r.mode = modeEnforce ∧ r.requireLogin = modeEnforce)
    (gateways : c.gatewayRealms getenv = .ok r.gateways) (filled : r.gateways.keys ≠ [])
    (anonymous : anonymousMethods c.anonymous = .ok r.anonymous)
    (checker : newTokenChecker schemes (c.keys getenv) c.issuer = .ok r.checker) :
    identityCheck schemes sidText c getenv = .ok (checksLogin schemes sidText r) := by
  have enforced : validMode modeEnforce = true ∧ modeEnforce ≠ modeOff := by decide
  have rules : loginRules schemes c getenv = .ok (some ⟨modeEnforce,modeEnforce,r.gateways,r.anonymous,r.checker⟩) := by
    simp only [loginRules,mode,login,enforced.1,enforced.2,gateways,filled,anonymous,checker,Bool.true_eq_false,
      ne_eq,not_false_eq_true,and_false,or_false,not_true_eq_false,if_true,if_false,bind,Except.bind]
  have same : (⟨modeEnforce,modeEnforce,r.gateways,r.anonymous,r.checker⟩ : LoginRules) = r := by
    obtain ⟨rMode,rLogin,rGateways,rAnonymous,rChecker⟩ := r
    obtain ⟨rfl,rfl⟩ := both
    rfl
  simp only [identityCheck,rules,same,bind,Except.bind]

theorem tokenChecked {c : TokenChecker} {now uid : Int} {t : AccessToken}
    (parsed : parse schemes c.keys c.issuer checkLeeway now t = some t.claims) (subject : subjectUID t.claims.subject = some uid) :
    check schemes c now t = .ok ⟨t.claims.realm,uid,t.claims.sid,t.claims.id,t.claims.expiresAt⟩ := by
  simp only [check,parsed,subject]

theorem keySigned {k : KeyRing} {t : AccessToken} {pub : Bytes} (alg : method t.alg = some .edDSA)
    (found : k.publicKeys.lookup (t.kid.getD "") = some pub) (good : schemes.edVerify pub t.message t.signature = true) :
    signedBy schemes k t = true := by
  simp only [signedBy,alg,found,good]

end Through

theorem gatewayChecked : checkServiceToken cluster wallet.serviceIdentity (5*second) gatewayToken = some ("sports","ser-api") := by
  have signed : cluster.rsaVerify clusterKey gatewayToken.message gatewayToken.signature = true := by
    simp only [cluster,gatewayToken,and_self,decide_true]
  have key : cluster.keys (gatewayToken.kid.getD "") = some clusterKey := rfl
  have inTime : timely (5*second) gatewayToken = true := by decide
  have issuer : gatewayToken.issuer = wallet.serviceIdentity.issuerName := by decide
  have audience : wallet.serviceIdentity.audienceName ∈ gatewayToken.audience := by decide
  have named : serviceAccount gatewayToken.subject = some ("sports","ser-api") := by decide
  have alg : ¬ gatewayToken.alg ≠ some "RS256" := not_not.mpr rfl
  rw [checkServiceToken,if_neg alg]
  simp only [key]
  rw [if_pos ⟨signed,issuer,audience,inTime⟩,named]

def pairRing : KeyRing := (⟨none,none,"",∅⟩ : KeyRing).add pair pairPublic

theorem plainChecked : check pair ⟨pairRing,"sportsbook"⟩ (5*second) plainToken = .ok ⟨"member",42,0,3,some 900⟩ := by
  have found : pairRing.publicKeys.lookup (plainToken.kid.getD "") = some pairPublic := by decide
  have signed : signedBy pair pairRing plainToken = true := keySigned (by decide) found plainGood
  have inTime : inTime checkLeeway (5*second) plainToken.claims = true := by decide
  have parsed : parse pair pairRing "sportsbook" checkLeeway (5*second) plainToken = some plainToken.claims := by
    rw [parse,if_pos ⟨signed,rfl,inTime⟩]
  exact tokenChecked parsed (by decide)

def walletRules : LoginRules where
  mode := modeEnforce
  requireLogin := modeEnforce
  gateways := (∅ : Gateways).insert "ser-api" "member"
  anonymous := ["Register"]
  checker := ⟨pairRing,"sportsbook"⟩

theorem walletLogin : identityCheck pair sessionText wallet.identity noEnv = .ok (checksLogin pair sessionText walletRules) := by
  have loads : loadKeys pair (checkerConfig (wallet.identity.keys noEnv) wallet.identity.issuer) = (pairRing,none) :=
    pairLoads ⟨rfl,rfl,rfl⟩
  have keyed : pairRing.publicKeys.keys ≠ [] := by decide
  have checker : newTokenChecker pair (wallet.identity.keys noEnv) wallet.identity.issuer = .ok walletRules.checker := by
    simp only [newTokenChecker,loads,if_neg keyed]
    rfl
  exact loginMade (by decide) (by decide) ⟨rfl,rfl⟩ rfl (by decide) rfl checker

theorem walletService : serviceIdentityCheck (takeoverIdentity wallet none) noEnv ⟨none,none⟩ =
    .ok (fun cluster now => serviceIdentityCheck.checks wallet.serviceIdentity noEnv modeEnforce cluster now) := by
  have mode : wallet.serviceIdentity.effectiveMode noEnv = modeEnforce := by decide
  have own : takeoverIdentity wallet none = wallet.serviceIdentity := rfl
  have enforced : modeEnforce ≠ modeOff := by decide
  simp only [serviceIdentityCheck,own,mode,if_neg enforced,ne_eq,not_true_eq_false,and_false,if_false]

def walletChain (m : Moment) : List Middleware :=
  [limits m,pass,pass,pass,serviceIdentityCheck.checks wallet.serviceIdentity noEnv modeEnforce m.cluster m.serviceClock,
    callers wallet.name wallet.callers noEnv,checksLogin pair sessionText walletRules m.userClock,validation m,idempotency m]

theorem walletMade : options pair sessionText wallet noEnv none ⟨none,none⟩ = .ok walletChain :=
  optionsMade (by decide) walletLogin walletService rfl

theorem walletServes : serve (walletChain quiet) debitCall = .handled ⟨debitCall,"ser-api"⟩ := by
  have proven : provenCaller quiet.cluster wallet.serviceIdentity noEnv quiet.serviceClock ⟨debitCall,""⟩ = .ok "ser-api" :=
    tokenProven rfl gatewayChecked (by decide) rfl
  have listed : wallet.callers.allowed.lookup "Debit" = some ["ser-api"] := by decide
  have admitted : ∀ next, callers wallet.name wallet.callers noEnv next ⟨debitCall,"ser-api"⟩ = next ⟨debitCall,"ser-api"⟩ :=
    fun next => callerAdmitted (by decide) listed (by decide)
  have login : ∀ next, checksLogin pair sessionText walletRules quiet.userClock next ⟨debitCall,"ser-api"⟩ =
      next ⟨debitCall,"ser-api"⟩ :=
    fun next => loginProven (show debitCall.userToken = .token plainToken from rfl) plainChecked (by decide)
      (by decide) rfl (by decide) (by decide)
  exact servePassed rfl proven admitted login rfl rfl

theorem debitAuthorized : ∃ mws, options pair sessionText wallet noEnv none ⟨none,none⟩ = .ok mws ∧
    serve (mws quiet) debitCall = .handled ⟨debitCall,"ser-api"⟩ ∧
    Authorized pair sessionText wallet none noEnv quiet debitCall :=
  ⟨walletChain,walletMade,walletServes,(handledAuthorized pair sessionText wallet noEnv none ⟨none,none⟩ walletChain quiet
    debitCall _ walletMade (by decide) (by decide) (by decide) walletServes).1⟩

end Options
end DevkitCommon.Kitexx.Server
