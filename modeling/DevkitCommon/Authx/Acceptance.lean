import DevkitCommon.Authx.Token

/-! Which tokens Verify and Check accept, said from the configuration's texts and the
token alone. The map of keys is no part of the rule: it is shown to hold, under a kid, the
one configured key of that id. -/
namespace DevkitCommon.Authx
open Redis Text Machine

section Rule
variable (schemes : Schemes) (cfg : AuthConfig)

def Names (pub : Bytes) : Prop :=
  (∃ seed, sized seedSize (trimSpace cfg.privateKey) = some seed ∧ pub = schemes.publicOf seed) ∨
    ∃ entry ∈ cfg.publicKeys, sized publicKeySize (trimSpace entry) = some pub

def Shares (secret : Bytes) : Prop := trimSpace cfg.secret ≠ [] ∧ secret = utf8 (trimSpace cfg.secret)

def DistinctIDs : Prop :=
  ∀ a b, Names schemes cfg a → Names schemes cfg b → keyID schemes a = keyID schemes b → a = b

def Signed (t : AccessToken) : Prop :=
  (t.alg = some "EdDSA" ∧ ∃ pub, Names schemes cfg pub ∧ t.kid = some (keyID schemes pub) ∧
    schemes.edVerify pub t.message t.signature = true) ∨
  (t.alg = some "HS256" ∧ ∃ secret, Shares cfg secret ∧ schemes.hmac256 secret t.message = t.signature)

def Unexpired (leeway now : Int) (c : TokenClaims) : Prop :=
  ∃ exp, c.expiresAt = some exp ∧ now < exp*second + leeway

def Begun (leeway now : Int) (c : TokenClaims) : Prop := ∀ nbf, c.notBefore = some nbf → nbf*second ≤ now + leeway

def PositiveUID (c : TokenClaims) : Prop := ∃ uid, parseInt 64 c.subject = some uid ∧ 0 < uid

def Genuine (leeway now : Int) (t : AccessToken) : Prop :=
  Signed schemes cfg t ∧ t.claims.issuer = cfg.issuerName ∧ Unexpired leeway now t.claims ∧
    Begun leeway now t.claims ∧ PositiveUID t.claims

end Rule

section Loaded
variable {schemes : Schemes} {cfg : AuthConfig} {k l : KeyRing} {names : Bytes → Prop} {pub : Bytes}

def Lists (schemes : Schemes) (k : KeyRing) (names : Bytes → Prop) : Prop :=
  ∀ kid pub, k.publicKeys.lookup kid = some pub ↔ names pub ∧ keyID schemes pub = kid

theorem listsSame {names' : Bytes → Prop} (lists : Lists schemes k names) (same : ∀ p, names' p ↔ names p) :
    Lists schemes k names' := by
  intro kid pub
  rw [lists kid pub,same]

theorem emptyLists : Lists schemes ⟨none,none,"",∅⟩ (fun _ => False) := by
  intro kid pub
  simp only [AList.lookup_empty,reduceCtorEq,false_and]

theorem addLists (pub : Bytes) (lists : Lists schemes k names)
    (apart : ∀ other, names other → keyID schemes other = keyID schemes pub → other = pub) :
    Lists schemes (k.add schemes pub) (fun p => names p ∨ p = pub) := by
  intro kid found
  by_cases same : kid = keyID schemes pub
  · subst same
    have gets : (k.add schemes pub).publicKeys.lookup (keyID schemes pub) = some pub := AList.lookup_insert _
    rw [gets,Option.some.injEq]
    constructor
    · rintro rfl
      exact ⟨.inr rfl,rfl⟩
    · rintro ⟨named | rfl,id⟩
      · exact (apart found named id).symm
      · rfl
  · have gets : (k.add schemes pub).publicKeys.lookup kid = k.publicKeys.lookup kid := AList.lookup_insert_ne same
    rw [gets,lists kid found]
    constructor
    · rintro ⟨named,id⟩
      exact ⟨.inl named,id⟩
    · rintro ⟨named | rfl,id⟩
      · exact ⟨named,id⟩
      · exact absurd id.symm same

theorem sizedEmpty {size : Nat} (positive : 0 < size) : sized size [] = none := by
  have short : ¬ ([] : Bytes).length = size := by
    rw [List.length_nil]
    exact Nat.ne_of_lt positive
  exact Option.filter_some_neg (p := fun bs : Bytes => decide (bs.length = size)) (by simpa using short)

theorem loadPublicLists {entries : List String} (lists : Lists schemes k names)
    (read : (loadPublic schemes entries k).2 = none)
    (apart : ∀ a b, (names a ∨ ∃ entry ∈ entries, sized publicKeySize (trimSpace entry) = some a) →
      (names b ∨ ∃ entry ∈ entries, sized publicKeySize (trimSpace entry) = some b) →
      keyID schemes a = keyID schemes b → a = b) :
    Lists schemes (loadPublic schemes entries k).1
      (fun p => names p ∨ ∃ entry ∈ entries, sized publicKeySize (trimSpace entry) = some p) := by
  induction entries generalizing k names with
  | nil => exact listsSame lists (fun p => by simp only [List.not_mem_nil,false_and,exists_false,or_false])
  | cons entry rest ih =>
    unfold loadPublic at read ⊢
    simp only [List.exists_mem_cons_iff] at apart ⊢
    by_cases blank : trimSpace entry = []
    · have none' : ∀ p, ¬ sized publicKeySize (trimSpace entry) = some p := by
        intro p
        rw [blank,sizedEmpty (by decide)]
        exact nofun
      simp only [if_pos blank,none',false_or] at read apart ⊢
      exact ih lists read apart
    · simp only [if_neg blank] at read ⊢
      cases pub : sized publicKeySize (trimSpace entry) with
      | none => simp only [pub,reduceCtorEq] at read
      | some pub' =>
        simp only [pub,Option.some.injEq] at read apart ⊢
        have added := addLists pub' lists (fun other named id => apart other pub' (.inl named) (.inr (.inl rfl)) id)
        have same : ∀ p, (names p ∨ pub' = p ∨ ∃ entry ∈ rest, sized publicKeySize (trimSpace entry) = some p) ↔
            ((names p ∨ p = pub') ∨ ∃ entry ∈ rest, sized publicKeySize (trimSpace entry) = some p) := by
          intro p
          rw [or_assoc,@eq_comm _ p]
        have loaded := ih added read (fun a b na nb => apart a b ((same a).mpr na) ((same b).mpr nb))
        exact listsSame loaded same

theorem loadPublicSecret {entries : List String} : (loadPublic schemes entries k).1.secret = k.secret := by
  induction entries generalizing k with
  | nil => rfl
  | cons entry rest ih =>
    unfold loadPublic
    dsimp only
    split
    · exact ih
    · split
      · rfl
      · exact ih

theorem loadPrivateSecret {privateKey : String} : (loadPrivate schemes privateKey k).1.secret = k.secret := by
  unfold loadPrivate
  dsimp only
  split
  · rfl
  · split <;> rfl

theorem loadSecretExact (text : String) (read : (loadSecret text k).2 = none) (empty : k.secret = none) :
    ∀ secret, (loadSecret text k).1.secret = some secret ↔ trimSpace text ≠ [] ∧ secret = utf8 (trimSpace text) := by
  intro secret
  unfold loadSecret at read ⊢
  dsimp only at read ⊢
  by_cases blank : trimSpace text = []
  · rw [if_pos blank,empty]
    simp only [blank,reduceCtorEq,ne_eq,not_true_eq_false,false_and]
  · rw [if_neg blank] at read ⊢
    split at read
    · contradiction
    · rename_i long
      rw [if_neg long,Option.some.injEq,eq_comm]
      simp only [ne_eq,blank,not_false_eq_true,true_and]

theorem loadSecretKeys (text : String) (k : KeyRing) : (loadSecret text k).1.publicKeys = k.publicKeys := by
  unfold loadSecret
  dsimp only
  split
  · rfl
  · split <;> rfl

theorem loadPrivateLists (privateKey : String) (lists : Lists schemes k (fun _ => False))
    (read : (loadPrivate schemes privateKey k).2 = none) :
    Lists schemes (loadPrivate schemes privateKey k).1
      (fun p => ∃ seed, sized seedSize (trimSpace privateKey) = some seed ∧ p = schemes.publicOf seed) := by
  unfold loadPrivate at read ⊢
  dsimp only at read ⊢
  by_cases blank : trimSpace privateKey = []
  · rw [if_pos blank,blank,sizedEmpty (by decide)]
    exact listsSame lists (fun p => by simp only [reduceCtorEq,false_and,exists_false])
  · rw [if_neg blank] at read ⊢
    cases seed : sized seedSize (trimSpace privateKey) with
    | none => simp only [seed,reduceCtorEq] at read
    | some seed' =>
      have ring : Lists schemes {k with privateKey := some seed', kid := keyID schemes (schemes.publicOf seed')}
        (fun _ => False) := lists
      have added := addLists (schemes.publicOf seed') ring (fun _ named => named.elim)
      exact listsSame added (fun p => by simp only [Option.some.injEq,exists_eq_left',false_or])

theorem loadKeysExact (read : (loadKeys schemes cfg).2 = none) (distinct : DistinctIDs schemes cfg) :
    Lists schemes (loadKeys schemes cfg).1 (Names schemes cfg) ∧
      ∀ secret, (loadKeys schemes cfg).1.secret = some secret ↔ Shares cfg secret := by
  unfold loadKeys at read ⊢
  have secrets := fun read => loadSecretExact (k := ⟨none,none,"",∅⟩) cfg.secret read rfl
  have untouched := loadSecretKeys cfg.secret ⟨none,none,"",∅⟩
  rcases first : loadSecret cfg.secret ⟨none,none,"",∅⟩ with ⟨k,_ | e⟩
  · rw [first] at read secrets untouched
    dsimp only at read secrets untouched ⊢
    have bare : Lists schemes k (fun _ => False) := by
      intro kid pub
      rw [untouched]
      exact emptyLists kid pub
    have own := loadPrivateLists cfg.privateKey bare
    have kept : (loadPrivate schemes cfg.privateKey k).1.secret = k.secret := loadPrivateSecret
    rcases second : loadPrivate schemes cfg.privateKey k with ⟨l,_ | e⟩
    · rw [second] at read own kept
      dsimp only at read own kept ⊢
      refine ⟨loadPublicLists (own rfl) read distinct,fun secret => ?_⟩
      rw [loadPublicSecret,kept]
      exact secrets rfl secret
    · rw [second] at read
      contradiction
  · rw [first] at read
    contradiction

theorem hexLength (bs : Bytes) : (hex bs).length = 2*bs.length := by
  induction bs with
  | nil => rfl
  | cons b rest ih =>
    have split : hex (b::rest) = hexDigit (b.toNat/16)::hexDigit (b.toNat%16)::hex rest := rfl
    rw [split,List.length_cons,List.length_cons,List.length_cons,ih]
    omega

theorem keyIDNamed : keyID schemes pub ≠ "" := by
  intro empty
  have letters : (hex ((schemes.sha256 pub).toList.take 4)).length = 8 := by
    rw [hexLength,List.length_take,Vector.length_toList]
    rfl
  have none' : hex ((schemes.sha256 pub).toList.take 4) = [] := by
    have texts := congrArg String.toList empty
    rwa [keyID,String.toList_ofList] at texts
  rw [none'] at letters
  contradiction

end Loaded

section Accepts
variable {schemes : Schemes} {cfg : AuthConfig} {k : KeyRing} {leeway now : Int} {t : AccessToken} {c : TokenClaims}
variable {issuer : String}

theorem methodEdDSA {alg : Option String} : method alg = some .edDSA ↔ alg = some "EdDSA" := by
  unfold method
  split <;> rename_i same
  · simp only [same]
  · split <;> simp only [same,reduceCtorEq,Option.some.injEq]

theorem methodHS256 {alg : Option String} : method alg = some .hs256 ↔ alg = some "HS256" := by
  unfold method
  split <;> rename_i other
  · rw [other]
    decide
  · split <;> rename_i same
    · simp only [same]
    · simp only [same,reduceCtorEq]

theorem signedByExact (lists : Lists schemes k (Names schemes cfg))
    (secrets : ∀ secret, k.secret = some secret ↔ Shares cfg secret) :
    signedBy schemes k t = true ↔ Signed schemes cfg t := by
  unfold signedBy Signed
  rw [← methodEdDSA,← methodHS256]
  cases method t.alg with
  | none => simp only [Bool.false_eq_true,reduceCtorEq,false_and,or_self]
  | some m =>
    cases m with
    | edDSA =>
      simp only [true_and,reduceCtorEq,Option.some.injEq,false_and,or_false]
      constructor
      · intro good
        split at good
        · rename_i pub found
          obtain ⟨named,id⟩ := (lists _ _).mp found
          cases kid : t.kid with
          | none =>
            rw [kid] at id
            exact absurd id keyIDNamed
          | some text =>
            rw [kid] at id
            exact ⟨pub,named,congrArg some id.symm,good⟩
        · contradiction
      · rintro ⟨pub,named,kid,good⟩
        have found : k.publicKeys.lookup (t.kid.getD "") = some pub := by
          rw [kid]
          exact (lists _ _).mpr ⟨named,rfl⟩
        rwa [found]
    | hs256 =>
      simp only [true_and,reduceCtorEq,Option.some.injEq,false_and,false_or]
      constructor
      · intro good
        split at good
        · rename_i secret found
          exact ⟨secret,(secrets secret).mp found,of_decide_eq_true good⟩
        · contradiction
      · rintro ⟨secret,shared,good⟩
        rw [(secrets secret).mpr shared]
        exact decide_eq_true good

theorem inTimeExact : inTime leeway now c = true ↔ Unexpired leeway now c ∧ Begun leeway now c := by
  unfold inTime Unexpired Begun
  rw [Bool.and_eq_true,Option.any_eq_true,Option.all_eq_true]
  have same : ∀ nbf, nbf*second - leeway ≤ now ↔ nbf*second ≤ now + leeway := fun nbf => by omega
  simp only [decide_eq_true_eq,same]

theorem subjectUIDExact : (∃ uid, subjectUID c.subject = some uid) ↔ PositiveUID c := by
  unfold subjectUID PositiveUID
  simp only [Option.filter_eq_some_iff,decide_eq_true_eq]

theorem parseHolds : parse schemes k issuer leeway now t = some c ↔
    (signedBy schemes k t = true ∧ t.claims.issuer = issuer ∧ inTime leeway now t.claims = true) ∧ c = t.claims := by
  unfold parse
  split <;> rename_i holds
  · rw [Option.some.injEq,eq_comm]
    exact ⟨fun same => ⟨holds,same⟩,And.right⟩
  · exact ⟨(by simp only [reduceCtorEq,false_implies]),fun both => absurd both.1 holds⟩

theorem parseExact (lists : Lists schemes k (Names schemes cfg))
    (secrets : ∀ secret, k.secret = some secret ↔ Shares cfg secret) :
    parse schemes k issuer leeway now t = some c ↔
      (Signed schemes cfg t ∧ t.claims.issuer = issuer ∧ Unexpired leeway now t.claims ∧ Begun leeway now t.claims) ∧
        c = t.claims := by
  rw [parseHolds,signedByExact lists secrets,inTimeExact]

theorem parseSecret (parsed : parse schemes k issuer leeway now t = some c) (bare : k.secret = none) :
    t.alg = some "EdDSA" := by
  have good := (parseHolds.mp parsed).1.1
  rw [← methodEdDSA]
  unfold signedBy at good
  rw [bare] at good
  cases m : method t.alg with
  | none =>
    rw [m] at good
    contradiction
  | some m' =>
    cases m' with
    | edDSA => rfl
    | hs256 =>
      rw [m] at good
      contradiction

end Accepts

def Accepted (answer : Except Refusal Identity) : Prop := ∃ who, answer = .ok who

section Checks
variable {schemes : Schemes} {cfg : AuthConfig} {verifier : Verifier} {checker : TokenChecker} {now : Int} {r : Reads}
variable {t : AccessToken} {publicKeys : List String} {issuer : String} {redis : Bool}

theorem newVerifierExact (made : newVerifier schemes cfg redis = .ok verifier) :
    validate schemes true cfg = none ∧ verifier = ⟨cfg,(loadKeys schemes cfg).1⟩ := by
  unfold newVerifier at made
  split at made
  · contradiction
  · rename_i admitted
    split at made
    · exact ⟨admitted,(Except.ok.inj made).symm⟩
    · contradiction

theorem admittedRead (admitted : validate schemes true cfg = none) (on : cfg.enabled = true) :
    (loadKeys schemes cfg).2 = none := by
  unfold validate at admitted
  rw [if_neg (by rw [on]; exact Bool.true_eq_false.mp)] at admitted
  split at admitted
  · contradiction
  · rename_i loaded
    rw [loaded]

theorem newTokenCheckerExact (made : newTokenChecker schemes publicKeys issuer = .ok checker) :
    (loadKeys schemes (checkerConfig publicKeys issuer)).2 = none ∧
      checker = ⟨(loadKeys schemes (checkerConfig publicKeys issuer)).1,(checkerConfig publicKeys issuer).issuerName⟩ := by
  unfold newTokenChecker at made
  split at made
  · contradiction
  · rename_i k loaded
    split at made
    · contradiction
    · rw [loaded]
      exact ⟨rfl,(Except.ok.inj made).symm⟩

theorem verifyAccepts : Accepted (verify schemes verifier now r t) ↔
    ∃ c, parse schemes verifier.keys verifier.cfg.issuerName 0 now t = some c ∧ c.realm = verifier.cfg.realm ∧
      PositiveUID c ∧ r.pipeline = .ok ∧ r.blacklisted c.id = false ∧ r.alive.alive c.sid = true := by
  unfold Accepted verify
  cases parsed : parse schemes verifier.keys verifier.cfg.issuerName 0 now t with
  | none => simp only [reduceCtorEq,exists_false,false_and]
  | some c =>
    simp only [Option.some.injEq,exists_eq_left',← subjectUIDExact]
    by_cases realm : c.realm = verifier.cfg.realm
    · cases subject : subjectUID c.subject with
      | none => simp [realm]
      | some uid =>
        by_cases answered : r.pipeline = .ok
        · cases r.blacklisted c.id <;> cases r.alive.alive c.sid <;> simp [realm,answered,Reads.revoked]
        · simp [realm,answered]
    · simp [realm]

theorem checkAccepts : Accepted (check schemes checker now t) ↔
    ∃ c, parse schemes checker.keys checker.issuer checkLeeway now t = some c ∧ PositiveUID c := by
  unfold Accepted check
  cases parsed : parse schemes checker.keys checker.issuer checkLeeway now t with
  | none => simp only [reduceCtorEq,exists_false,false_and]
  | some c =>
    simp only [Option.some.injEq,exists_eq_left',← subjectUIDExact]
    cases subject : subjectUID c.subject with
    | none => simp only [reduceCtorEq,exists_false]
    | some uid => simp only [Except.ok.injEq,exists_eq',Option.some.injEq]

theorem bareSecret (blank : trimSpace cfg.secret = []) : (loadKeys schemes cfg).1.secret = none := by
  have first : loadSecret cfg.secret ⟨none,none,"",∅⟩ = (⟨none,none,"",∅⟩,none) := by
    unfold loadSecret
    exact if_pos blank
  unfold loadKeys
  rw [first]
  dsimp only
  have kept : (loadPrivate schemes cfg.privateKey ⟨none,none,"",∅⟩).1.secret = none := loadPrivateSecret
  split
  · rename_i second
    rwa [second] at kept
  · rename_i second
    rw [second] at kept
    rw [loadPublicSecret]
    exact kept

end Checks

theorem tokenAccepted (schemes : Schemes) :
    (∀ cfg verifier, newVerifier schemes cfg true = .ok verifier →
      (cfg.enabled = true ∨ (loadKeys schemes cfg).2 = none) → DistinctIDs schemes cfg →
      ∀ now reads t, Accepted (verify schemes verifier now reads t) ↔
        Genuine schemes cfg 0 now t ∧ t.claims.realm = cfg.realm ∧ reads.pipeline = .ok ∧
          reads.blacklisted t.claims.id = false ∧ reads.alive.alive t.claims.sid = true) ∧
    (∀ publicKeys issuer checker, newTokenChecker schemes publicKeys issuer = .ok checker →
      DistinctIDs schemes (checkerConfig publicKeys issuer) →
      ∀ now t, Accepted (check schemes checker now t) ↔
        Genuine schemes (checkerConfig publicKeys issuer) checkLeeway now t) ∧
    (∀ cfg verifier, newVerifier schemes cfg true = .ok verifier → trimSpace cfg.secret = [] →
      ∀ now reads t, Accepted (verify schemes verifier now reads t) → t.alg = some "EdDSA") ∧
    ∀ publicKeys issuer checker, newTokenChecker schemes publicKeys issuer = .ok checker →
      ∀ now t, Accepted (check schemes checker now t) → t.alg = some "EdDSA" := by
  refine ⟨?_,?_,?_,?_⟩
  · intro cfg verifier made on distinct now reads t
    obtain ⟨admitted,rfl⟩ := newVerifierExact made
    have read : (loadKeys schemes cfg).2 = none := on.elim (admittedRead admitted) id
    obtain ⟨lists,secrets⟩ := loadKeysExact read distinct
    rw [verifyAccepts]
    simp only [parseExact lists secrets,Genuine]
    constructor
    · rintro ⟨c,⟨⟨signed,issuer,unexpired,begun⟩,rfl⟩,realm,uid,rest⟩
      exact ⟨⟨signed,issuer,unexpired,begun,uid⟩,realm,rest⟩
    · rintro ⟨⟨signed,issuer,unexpired,begun,uid⟩,realm,rest⟩
      exact ⟨t.claims,⟨⟨signed,issuer,unexpired,begun⟩,rfl⟩,realm,uid,rest⟩
  · intro publicKeys issuer checker made distinct now t
    obtain ⟨read,rfl⟩ := newTokenCheckerExact made
    obtain ⟨lists,secrets⟩ := loadKeysExact read distinct
    rw [checkAccepts]
    simp only [parseExact lists secrets,Genuine]
    constructor
    · rintro ⟨c,⟨⟨signed,issuer,unexpired,begun⟩,rfl⟩,uid⟩
      exact ⟨signed,issuer,unexpired,begun,uid⟩
    · rintro ⟨signed,issuer,unexpired,begun,uid⟩
      exact ⟨t.claims,⟨⟨signed,issuer,unexpired,begun⟩,rfl⟩,uid⟩
  · intro cfg verifier made blank now reads t accepted
    obtain ⟨-,rfl⟩ := newVerifierExact made
    obtain ⟨c,parsed,-⟩ := verifyAccepts.mp accepted
    exact parseSecret parsed (bareSecret blank)
  · intro publicKeys issuer checker made now t accepted
    obtain ⟨-,rfl⟩ := newTokenCheckerExact made
    obtain ⟨c,parsed,-⟩ := checkAccepts.mp accepted
    exact parseSecret parsed (bareSecret rfl)

def pairPublic : Bytes :=
  [215,90,152,1,130,177,10,183,213,75,254,211,201,100,7,58,14,225,114,243,218,166,35,37,175,2,26,
   104,247,7,81,26]
def pairDigest : Vector UInt8 32 :=
  #v[33,254,49,223,161,84,162,97,98,107,248,84,4,111,210,39,27,123,237,75,106,190,69,170,88,135,126,
   244,127,151,33,185]
def pairHeader : String := "eyJhbGciOiJFZERTQSIsImtpZCI6IjIxZmUzMWRmIiwidHlwIjoiSldUIn0."
def plainMessage : Bytes := utf8 (pairHeader ++
  "eyJpc3MiOiJzcG9ydHNib29rIiwic3ViIjoiNDIiLCJleHAiOjkwMCwiaWF0IjowLCJqdGkiOiJ0MyIsInR5cCI6Im1lbWJlciIsInNpZCI6InMwIn0").toList
def plainSignature : Bytes :=
  [214,76,178,202,9,6,224,228,126,169,31,129,84,236,65,10,54,38,221,41,164,16,8,63,239,105,134,232,
   129,36,221,152,59,14,98,165,142,50,127,12,20,239,232,35,86,32,243,116,238,147,234,19,97,2,227,
   215,43,253,185,97,62,156,77,4]
def lateMessage : Bytes := utf8 (pairHeader ++
  "eyJpc3MiOiJzcG9ydHNib29rIiwic3ViIjoiNDIiLCJleHAiOjkwMCwiaWF0IjowLCJqdGkiOiJ0MyIsInR5cCI6Im1lbWJlciIsInNpZCI6InMwIiwibmJmIjo2MDB9").toList
def lateSignature : Bytes :=
  [93,13,233,62,149,151,200,180,69,65,208,141,80,97,220,35,234,123,246,65,254,53,4,26,184,142,149,
   239,218,111,152,25,106,137,62,109,11,223,175,7,233,132,212,183,54,154,215,139,28,116,209,67,123,
   241,204,66,180,89,222,8,54,207,51,1]

def pair : Schemes where
  sha256 text := if text = pairPublic then pairDigest else Vector.replicate 32 0
  publicOf _ := []
  edVerify pub text signature := decide (pub = pairPublic ∧
    (signature = plainSignature ∧ text = plainMessage ∨ signature = lateSignature ∧ text = lateMessage))
  hmac256 _ _ := []

def pairKey : String := "11qYAYKxCrfVS/7TyWQHOg7hcvPapiMlrwIaaPcHURo="

def gateway (enabled : Bool) (publicKeys : List String) : AuthConfig :=
  {checkerConfig publicKeys "" with enabled := enabled, realm := "member"}

def plainToken : AccessToken where
  alg := some "EdDSA"
  kid := some "21fe31df"
  claims := ⟨"sportsbook","42",3,some 900,none,"member",0⟩
  message := plainMessage
  signature := plainSignature

def lateToken : AccessToken :=
  {plainToken with
    claims := {plainToken.claims with notBefore := some 600}
    message := lateMessage
    signature := lateSignature}

def readsLive (pipeline : Reply) : Reads :=
  let s := {State.init 0 with keys := startSession ⟨"",0,0,none⟩ 0 ⟨"member",42⟩ 0 Keys.empty}
  ⟨s,s,s,pipeline,.ok⟩

theorem pairKeyRead : sized publicKeySize (trimSpace pairKey) = some pairPublic := by decide
theorem pairID : keyID pair pairPublic = "21fe31df" := by decide
theorem plainGood : pair.edVerify pairPublic plainToken.message plainToken.signature = true := by
  simp only [pair,plainToken,and_self,true_or,decide_true]
theorem lateGood : pair.edVerify pairPublic lateToken.message lateToken.signature = true := by
  simp only [pair,lateToken,and_self,or_true,decide_true]

theorem pairLoads {cfg : AuthConfig} (texts : cfg.secret = "" ∧ cfg.privateKey = "" ∧ cfg.publicKeys = [pairKey]) :
    loadKeys pair cfg = ((⟨none,none,"",∅⟩ : KeyRing).add pair pairPublic,none) := by
  obtain ⟨secret,seed,listed⟩ := texts
  have written : trimSpace pairKey ≠ [] := by decide
  have loop : loadKeys pair cfg = loadPublic pair [pairKey] ⟨none,none,"",∅⟩ := by
    unfold loadKeys
    rw [secret,seed,listed]
    rfl
  rw [loop,loadPublic]
  simp only [if_neg written,pairKeyRead,loadPublic]

theorem pairNames {cfg : AuthConfig} {pub : Bytes} (none' : cfg.privateKey = "")
    (only : ∀ entry ∈ cfg.publicKeys, entry = pairKey ∨ sized publicKeySize (trimSpace entry) = none)
    (named : Names pair cfg pub) : pub = pairPublic := by
  rcases named with ⟨seed,own,-⟩ | ⟨entry,member,listed⟩
  · have blank : sized seedSize (trimSpace "") = none := sizedEmpty (by decide)
    rw [none',blank] at own
    contradiction
  · rcases only entry member with rfl | bad
    · exact Option.some.inj (listed.symm.trans pairKeyRead)
    · rw [bad] at listed
      contradiction

theorem pairDistinct {cfg : AuthConfig} (none' : cfg.privateKey = "")
    (only : ∀ entry ∈ cfg.publicKeys, entry = pairKey ∨ sized publicKeySize (trimSpace entry) = none) :
    DistinctIDs pair cfg :=
  fun _ _ left right _ => (pairNames none' only left).trans (pairNames none' only right).symm

theorem pairOnly : ∀ entry ∈ [pairKey],entry = pairKey ∨ sized publicKeySize (trimSpace entry) = none :=
  fun _ member => .inl (List.mem_singleton.mp member)

theorem pairSigned {cfg : AuthConfig} {t : AccessToken} (listed : pairKey ∈ cfg.publicKeys)
    (named : t.alg = some "EdDSA" ∧ t.kid = some "21fe31df")
    (good : pair.edVerify pairPublic t.message t.signature = true) : Signed pair cfg t :=
  .inl ⟨named.1,pairPublic,.inr ⟨pairKey,listed,pairKeyRead⟩,pairID ▸ named.2,good⟩

theorem gatewayMade : newVerifier pair (gateway true [pairKey]) true =
    .ok ⟨gateway true [pairKey],(loadKeys pair (gateway true [pairKey])).1⟩ := by
  have loads : loadKeys pair (gateway true [pairKey]) = _ := pairLoads ⟨rfl,rfl,rfl⟩
  have admitted : validate pair true (gateway true [pairKey]) = none := by
    unfold validate
    rw [loads]
    rfl
  rw [newVerifier,admitted]
  rfl

theorem readsLiveFinds (pipeline : Reply) :
    (readsLive pipeline).alive.alive 0 = true ∧ (readsLive pipeline).blacklisted 3 = false := by
  cases pipeline <;> decide

theorem plainUID : PositiveUID plainToken.claims := ⟨42,by decide,by decide⟩
theorem plainUnexpired : Unexpired 0 (5*second) plainToken.claims := ⟨900,rfl,by decide⟩

theorem plainAccepted : ∃ verifier, newVerifier pair (gateway true [pairKey]) true = .ok verifier ∧
    Accepted (verify pair verifier (5*second) (readsLive .ok) plainToken) := by
  have rule := (tokenAccepted pair).1 (gateway true [pairKey]) _ gatewayMade (.inl rfl)
    (pairDistinct rfl pairOnly) (5*second) (readsLive .ok) plainToken
  have signed : Signed pair (gateway true [pairKey]) plainToken :=
    pairSigned List.mem_cons_self ⟨rfl,rfl⟩ plainGood
  obtain ⟨alive,clear⟩ := readsLiveFinds .ok
  exact ⟨_,gatewayMade,rule.mpr ⟨⟨signed,rfl,plainUnexpired,nofun,plainUID⟩,rfl,rfl,clear,alive⟩⟩

def BareRule (only : AuthConfig → Reads → AccessToken → Prop) : Prop :=
  ∀ schemes cfg verifier, newVerifier schemes cfg true = .ok verifier → DistinctIDs schemes cfg →
    ∀ now reads t, only cfg reads t → (Accepted (verify schemes verifier now reads t) ↔
      Signed schemes cfg t ∧ t.claims.issuer = cfg.issuerName ∧ Unexpired 0 now t.claims ∧ PositiveUID t.claims ∧
        t.claims.realm = cfg.realm ∧ reads.alive.alive t.claims.sid = true ∧ reads.blacklisted t.claims.id = false)

def BareCheck : Prop :=
  ∀ schemes publicKeys issuer checker, newTokenChecker schemes publicKeys issuer = .ok checker →
    DistinctIDs schemes (checkerConfig publicKeys issuer) →
    ∀ now t, t.claims.notBefore = none → (Accepted (check schemes checker now t) ↔
      Signed schemes (checkerConfig publicKeys issuer) t ∧
        t.claims.issuer = (checkerConfig publicKeys issuer).issuerName ∧
        (∃ exp, t.claims.expiresAt = some exp ∧ now ≤ exp*second + checkLeeway) ∧ PositiveUID t.claims)

theorem bareRulesFail :
    ¬ BareRule (fun cfg reads _ => cfg.enabled = true ∧ reads.pipeline = .ok) ∧
    ¬ BareRule (fun cfg _ t => cfg.enabled = true ∧ t.claims.notBefore = none) ∧
    ¬ BareRule (fun _ reads t => reads.pipeline = .ok ∧ t.claims.notBefore = none) ∧ ¬ BareCheck := by
  have distinct : DistinctIDs pair (gateway true [pairKey]) := pairDistinct rfl pairOnly
  refine ⟨?_,?_,?_,?_⟩ <;> intro claimed
  · have signed : Signed pair (gateway true [pairKey]) lateToken :=
      pairSigned List.mem_cons_self ⟨rfl,rfl⟩ lateGood
    have accepted := (claimed pair _ _ gatewayMade distinct (5*second) (readsLive .ok) lateToken ⟨rfl,rfl⟩).mpr
      ⟨signed,rfl,plainUnexpired,plainUID,rfl,readsLiveFinds .ok⟩
    obtain ⟨c,parsed,-⟩ := verifyAccepts.mp accepted
    have early : inTime 0 (5*second) lateToken.claims = false := by decide
    exact nomatch early.symm.trans (parseHolds.mp parsed).1.2.2
  · have signed : Signed pair (gateway true [pairKey]) plainToken :=
      pairSigned List.mem_cons_self ⟨rfl,rfl⟩ plainGood
    have accepted := (claimed pair _ _ gatewayMade distinct (5*second) (readsLive .failed) plainToken ⟨rfl,rfl⟩).mpr
      ⟨signed,rfl,plainUnexpired,plainUID,rfl,readsLiveFinds .failed⟩
    obtain ⟨c,-,-,-,answered,-⟩ := verifyAccepts.mp accepted
    exact nomatch answered
  · have only : ∀ entry ∈ ["x",pairKey],entry = pairKey ∨ sized publicKeySize (trimSpace entry) = none := by
      decide
    have listed : pairKey ∈ (gateway false ["x",pairKey]).publicKeys := List.mem_cons_of_mem _ List.mem_cons_self
    have signed : Signed pair (gateway false ["x",pairKey]) plainToken := pairSigned listed ⟨rfl,rfl⟩ plainGood
    have made : newVerifier pair (gateway false ["x",pairKey]) true =
        .ok ⟨gateway false ["x",pairKey],(loadKeys pair (gateway false ["x",pairKey])).1⟩ := rfl
    have accepted := (claimed pair _ _ made (pairDistinct rfl only) (5*second) (readsLive .ok) plainToken ⟨rfl,rfl⟩).mpr
      ⟨signed,rfl,plainUnexpired,plainUID,rfl,readsLiveFinds .ok⟩
    obtain ⟨c,parsed,-⟩ := verifyAccepts.mp accepted
    have unknown : signedBy pair (loadKeys pair (gateway false ["x",pairKey])).1 plainToken = false := by decide
    rw [parse,if_neg (by rw [unknown]; exact fun good => nomatch good.1)] at parsed
    contradiction
  · have loads : loadKeys pair (checkerConfig [pairKey] "") = _ := pairLoads ⟨rfl,rfl,rfl⟩
    have made : newTokenChecker pair [pairKey] "" =
        .ok ⟨(loadKeys pair (checkerConfig [pairKey] "")).1,(checkerConfig [pairKey] "").issuerName⟩ := by
      rw [newTokenChecker,loads]
      rfl
    have signed : Signed pair (checkerConfig [pairKey] "") plainToken :=
      pairSigned List.mem_cons_self ⟨rfl,rfl⟩ plainGood
    have last : 930*second ≤ 900*second + checkLeeway := by decide
    have accepted := (claimed pair [pairKey] "" _ made (pairDistinct rfl pairOnly) (930*second) plainToken rfl).mpr
      ⟨signed,rfl,⟨900,rfl,last⟩,plainUID⟩
    obtain ⟨c,parsed,-⟩ := checkAccepts.mp accepted
    have late : inTime checkLeeway (930*second) plainToken.claims = false := by decide
    exact nomatch late.symm.trans (parseHolds.mp parsed).1.2.2

end DevkitCommon.Authx
