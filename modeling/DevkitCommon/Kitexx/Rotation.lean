import DevkitCommon.Kitexx.Authorization
import DevkitCommon.Lib.Machine

/-! The keys of the cluster and the token of a pod while both are replaced. A server keeps the
keys it has read and reads them again when they are old or a token names none of them; a client
keeps the token it has read for a minute. Others call with tokens of any key meanwhile. -/
namespace DevkitCommon.Kitexx.Server.Rotation
open Redis Authx Machine Text

structure JWK where
  kty : String
  kid : String
  n : String
  e : String
  deriving DecidableEq, Repr

def rawURL (s : String) : Option Authx.Bytes :=
  let cs := s.toList.filter (fun c => c ≠ '\r' ∧ c ≠ '\n')
  if cs.any (fun c => c = '+' ∨ c = '/' ∨ c = '=') then none
  else
    let std := cs.map (fun c => if c = '-' then '+' else if c = '_' then '/' else c)
    match std.length % 4 with
    | 0 => decode64 std
    | 2 => decode64 (std ++ ['=','='])
    | 3 => decode64 (std ++ ['='])
    | _ => none

/- keys and fetched are those of the last document that was read; no time is the zero time. -/
structure Jwks where
  keys : List (String × Authx.Bytes)
  fetched : Option Int
  tried : Option Int
  deriving DecidableEq, Repr

def keysAge : Int := 10*60*second
def triedAge : Int := 30*second
def fetchTimeout : Int := 5*second

def longer (now : Int) (t : Option Int) (d : Int) : Bool := t.all (fun t => decide (d < now - t))

def Jwks.asks (j : Jwks) (now : Int) (kid : String) : Bool :=
  ((j.keys.lookup kid).isNone || longer now j.fetched keysAge) && longer now j.tried triedAge

structure TokenFile where
  tok : String
  read : Option Int
  deriving DecidableEq, Repr

def TokenFile.get (f : TokenFile) (now : Int) (content : Option String) : TokenFile :=
  if f.read.any (fun t => decide (now - t < 60*second)) ∧ f.tok ≠ "" then f
  else match content with
    | some text => ⟨trimmed text,some now⟩
    | none => f

/- What the cluster publishes and the kubelet writes, at each time. -/
structure World where
  published : Int → List JWK
  file : Int → Option String

/- asked are the times at which keys were asked for, results those of the client's calls. -/
structure State where
  now : Int
  jwks : Jwks
  asked : List Int
  file : TokenFile
  results : List (Except String String)

/- A fetch takes a while and fails, or has the document of a moment of it. -/
inductive Action where
  | tick (d : Nat)
  | other (kid : String) (took : Nat) (answer : Option Nat)
  | own (took : Nat) (answer : Option Nat)
  deriving DecidableEq, Repr

section Steps
variable (rsaKey : Authx.Bytes → Authx.Bytes → Authx.Bytes) (world : World)

def usable (k : JWK) : Option (String × Authx.Bytes) :=
  if k.kty ≠ "RSA" then none
  else do
    let n ← rawURL k.n
    let e ← rawURL k.e
    some (k.kid,rsaKey n e)

/- Of two keys of one kid the later counts. -/
def rsaKeys (doc : List JWK) : List (String × Authx.Bytes) := (doc.filterMap (usable rsaKey)).reverse

def Jwks.fetch (j : Jwks) (now : Int) (doc : Option (List JWK)) : Jwks :=
  match doc with
  | none => j
  | some doc => if rsaKeys rsaKey doc = [] then j else {j with keys := rsaKeys rsaKey doc,fetched := some now}

/- key: afterwards the keys are those it answers from. -/
def State.key (s : State) (kid : String) (took : Nat) (answer : Option Nat) : Option State :=
  if s.jwks.asks s.now kid then
    if (took : Int) ≤ fetchTimeout ∧ answer.all (fun d => decide (d ≤ took)) then
      some {s with
        now := s.now+took
        jwks := {s.jwks with tried := some s.now}.fetch rsaKey (s.now+took)
          (answer.map (fun d : Nat => world.published (s.now+d)))
        asked := s.now::s.asked}
    else none
  else some s

variable (rsaVerify : Authx.Bytes → Authx.Bytes → Authx.Bytes → Bool) (decode : String → Sent ServiceToken)
  (c : ServiceIdentityConfig) (getenv : Getenv) (call : Ctx)

def sent (tok : String) : Sent ServiceToken := if tok = "" then .nothing else decode tok

def State.cluster (s : State) : Cluster := ⟨rsaVerify,fun kid => s.jwks.keys.lookup kid⟩

/- The algorithm is looked at before the key is. -/
def State.check (s : State) (token : Sent ServiceToken) (took : Nat) (answer : Option Nat) : Option State :=
  match token with
  | .token t => if t.alg = some "RS256" then s.key rsaKey world (t.kid.getD "") took answer else some s
  | _ => some s

def step (s : State) : Action → Option State
  | .tick d => some {s with now := s.now+d}
  | .other kid took answer => s.key rsaKey world kid took answer
  | .own took answer => do
    let file := s.file.get s.now (world.file s.now)
    let token := sent decode file.tok
    let u ← {s with file := file}.check rsaKey world token took answer
    some {u with results := u.results ++
      [provenCaller (u.cluster rsaVerify) c getenv u.now {call with svcToken := token}]}

def start (now read : Int) : State := ⟨now,⟨rsaKeys rsaKey (world.published read),some now,none⟩,[],⟨"",none⟩,[]⟩

end Steps
section Books
variable (rsaKey : Authx.Bytes → Authx.Bytes → Authx.Bytes) (world : World)

structure Spaced (s : State) : Prop where
  apart : s.asked.Pairwise (fun later earlier => earlier+triedAge < later)
  last : s.asked.head? = s.jwks.tried
  past : ∀ τ ∈ s.asked, τ ≤ s.now

structure FromCluster (s : State) : Prop where
  read : ∃ q f, s.jwks.fetched = some f ∧ q ≤ f ∧ f ≤ s.now ∧ s.jwks.keys = rsaKeys rsaKey (world.published q)

def Withdrawn (kid : String) (k : Authx.Bytes) (w : Int) : Prop :=
  ∀ q, w ≤ q → (rsaKeys rsaKey (world.published q)).lookup kid ≠ some k

end Books

variable {rsaKey : Authx.Bytes → Authx.Bytes → Authx.Bytes} {world : World}
  {rsaVerify : Authx.Bytes → Authx.Bytes → Authx.Bytes → Bool}
  {decode : String → Sent ServiceToken} {c : ServiceIdentityConfig} {getenv : Getenv} {call : Ctx} {s t u : State}
  {a : Action} {kid : String} {took : Nat} {answer : Option Nat} {hi : Int}

theorem keyCases (one : s.key rsaKey world kid took answer = some t) : s.jwks.asks s.now kid = false ∧ t = s ∨
    s.jwks.asks s.now kid = true ∧ (took : Int) ≤ fetchTimeout ∧ (∀ d ∈ answer, d ≤ took) ∧
      t = {s with
        now := s.now+took
        jwks := {s.jwks with tried := some s.now}.fetch rsaKey (s.now+took)
          (answer.map (fun d : Nat => world.published (s.now+d)))
        asked := s.now::s.asked} := by
  unfold State.key at one
  split at one
  · rename_i asks
    split at one <;> try contradiction
    rename_i inTime
    have within (d : Nat) (is : d ∈ answer) : d ≤ took := by
      have all := inTime.2
      rw [Option.mem_def.mp is,Option.all_some,decide_eq_true_eq] at all
      exact all
    exact .inr ⟨asks,inTime.1,within,(Option.some.inj one).symm⟩
  · rename_i calm
    exact .inl ⟨eq_false_of_ne_true calm,(Option.some.inj one).symm⟩

theorem stepKeeps {p : State → Prop} (ticks : ∀ {s : State} (d : Nat), p s → p {s with now := s.now+d})
    (keys : ∀ {s t : State} {kid : String} {took : Nat} {answer : Option Nat}, p s →
      s.key rsaKey world kid took answer = some t → p t)
    (rest : ∀ {s : State} (file : TokenFile) (results : List (Except String String)), p s →
      p {s with file := file,results := results})
    (inv : p s) (one : step rsaKey world rsaVerify decode c getenv call s a = some t) : p t := by
  cases a with
  | tick d =>
    cases Option.some.inj one
    exact ticks d inv
  | other kid took answer => exact keys inv one
  | own took answer =>
    simp only [step,bind] at one
    obtain ⟨u,checked,last⟩ := Option.bind_eq_some_iff.mp one
    cases Option.some.inj last
    refine rest u.file _ ?_
    have before := rest (s.file.get s.now (world.file s.now)) s.results inv
    unfold State.check at checked
    split at checked
    · split at checked
      · exact keys before checked
      · cases Option.some.inj checked
        exact before
    · cases Option.some.inj checked
      exact before

theorem fetchTried {j : Jwks} {now : Int} {doc : Option (List JWK)} : (j.fetch rsaKey now doc).tried = j.tried := by
  unfold Jwks.fetch
  split
  · rfl
  · split <;> rfl

theorem spacedKey (inv : Spaced s) (one : s.key rsaKey world kid took answer = some t) : Spaced t := by
  rcases keyCases one with ⟨-,rfl⟩ | ⟨asks,-,-,rfl⟩
  · exact inv
  · simp only [Jwks.asks,Bool.and_eq_true] at asks
    refine ⟨List.pairwise_cons.mpr ⟨fun τ mem => ?_,inv.apart⟩,by simp only [fetchTried,List.head?_cons],
      fun τ mem => ?_⟩
    · have latest := inv.last
      cases asked : s.asked with
      | nil => simp [asked] at mem
      | cons first older =>
        rw [asked,List.head?_cons] at latest
        have late := asks.2
        rw [longer,← latest,Option.all_some,decide_eq_true_eq] at late
        rw [asked] at mem
        have sorted := inv.apart
        rw [asked,List.pairwise_cons] at sorted
        rcases List.mem_cons.mp mem with rfl | older
        · omega
        · have := sorted.1 τ older
          have : (0 : Int) < triedAge := by decide
          omega
    · rcases List.mem_cons.mp mem with rfl | older
      · simp only; omega
      · have := inv.past τ older
        simp only; omega

theorem spacedStep (inv : Spaced s) (one : step rsaKey world rsaVerify decode c getenv call s a = some t) : Spaced t := by
  refine stepKeeps (fun d inv => ?_) spacedKey (fun file results inv => ⟨inv.apart,inv.last,inv.past⟩) inv one
  refine ⟨inv.apart,inv.last,fun τ mem => ?_⟩
  have := inv.past τ mem
  simp only; omega

theorem spacedCount {gap lo : Int} (positive : 0 < gap) {l : List Int} (apart : l.Pairwise (fun x y => y+gap < x))
    {hi : Int} (inside : ∀ x ∈ l, lo ≤ x ∧ x ≤ hi) (order : lo ≤ hi) : (l.length : Int)*gap ≤ hi-lo+gap := by
  induction l generalizing hi with
  | nil => simp only [List.length_nil]; omega
  | cons x l ih =>
    obtain ⟨after,rest⟩ := List.pairwise_cons.mp apart
    obtain ⟨low,high⟩ := inside x List.mem_cons_self
    have more : ((x::l).length : Int)*gap = (l.length : Int)*gap+gap := by
      rw [List.length_cons,Int.natCast_add,Int.add_mul]
      omega
    rw [more]
    by_cases early : lo ≤ x-gap
    · have earlier (y : Int) (mem : y ∈ l) : lo ≤ y ∧ y ≤ x-gap := by
        have := after y mem
        have := inside y (List.mem_cons_of_mem x mem)
        omega
      have fewer := ih rest earlier early
      omega
    · have none' : l = [] := by
        refine List.eq_nil_iff_forall_not_mem.mpr (fun y mem => ?_)
        have := after y mem
        have := inside y (List.mem_cons_of_mem x mem)
        omega
      rw [none',List.length_nil]
      omega

theorem asksSpaced {now read : Int} (reached : Reachable (step rsaKey world rsaVerify decode c getenv call)
    (start rsaKey world now read) s) {lo hi : Int} (order : lo ≤ hi) :
    ((s.asked.filter (fun τ => decide (lo ≤ τ ∧ τ ≤ hi))).length : Int) ≤ (hi-lo)/triedAge+1 := by
  have begins : Spaced (start rsaKey world now read) := ⟨.nil,rfl,nofun⟩
  have spaced := reachableKeeps spacedStep begins reached
  have gap : (0 : Int) < triedAge := by decide
  have inside : ∀ τ ∈ s.asked.filter (fun τ => decide (lo ≤ τ ∧ τ ≤ hi)), lo ≤ τ ∧ τ ≤ hi := fun τ mem =>
    of_decide_eq_true (List.mem_filter.mp mem).2
  have count := spacedCount gap (spaced.apart.filter _) inside order
  have most := (Int.le_ediv_iff_mul_le gap).mpr count
  rwa [Int.add_ediv_of_dvd_right (Int.dvd_refl triedAge),Int.ediv_self (Int.ne_of_gt gap)] at most

def firstKey : JWK := ⟨"RSA","k1","AQ","AQAB"⟩
def secondKey : JWK := ⟨"RSA","k2","Ag","AQAB"⟩
def turning : World where
  published q := if q < 2900*second then [firstKey] else if q < 3100*second then [firstKey,secondKey] else [secondKey]
  file p := if p < 3000*second then some "t1\n" else some "t2\n"

def joined (n e : Authx.Bytes) : Authx.Bytes := n ++ e
def appended (key message signature : Authx.Bytes) : Bool := decide (signature = key ++ message)

def apiToken (kid : String) (key : Authx.Bytes) (exp : Int) : ServiceToken where
  alg := some "RS256"
  kid := some kid
  issuer := "https://kubernetes.default.svc.cluster.local"
  audience := ["sportsbook-rpc"]
  subject := "system:serviceaccount:sports:ser-api"
  expiresAt := some exp
  notBefore := none
  message := [99,108,97]
  signature := key ++ [99,108,97]

def decodeApi (s : String) : Sent ServiceToken :=
  if s = "t1" then .token (apiToken "k1" [1,1,0,1] 3600)
  else if s = "t2" then .token (apiToken "k2" [2,1,0,1] 7200)
  else .garbage

def apiCall : Ctx := ⟨⟨"Debit","ser-api",.nothing,none,none,none,.nothing⟩,""⟩
def turningStep : State → Action → Option State :=
  step joined turning appended decodeApi wallet.serviceIdentity noEnv apiCall

def flood : List Action :=
  [.other "x1" 2000 (some 1000),.tick 1000000000,.other "x2" 2000 (some 1000),.tick 30000000000,
    .other "x3" 2000 none,.other "x4" 2000 (some 5)]

theorem floodSpaced : ∃ s, run turningStep (start joined turning 0 0) flood = some s ∧
    ((s.asked.filter (fun τ => decide (0 ≤ τ ∧ τ ≤ 40*second))).length : Int) ≤ (40*second-0)/triedAge+1 := by
  have runs : (run turningStep (start joined turning 0 0) flood).isSome = true := by decide +kernel
  obtain ⟨s,ok⟩ := Option.isSome_iff_exists.mp runs
  exact ⟨s,ok,asksSpaced ⟨flood,ok⟩ (by decide)⟩

theorem fetchCases (j : Jwks) (now : Int) (doc : Option (List JWK)) :
    ((j.fetch rsaKey now doc).keys = j.keys ∧ (j.fetch rsaKey now doc).fetched = j.fetched ∧
      ∀ d ∈ doc, rsaKeys rsaKey d = []) ∨
    ∃ d ∈ doc, (j.fetch rsaKey now doc).keys = rsaKeys rsaKey d ∧ (j.fetch rsaKey now doc).fetched = some now := by
  cases doc with
  | none => exact .inl ⟨rfl,rfl,nofun⟩
  | some d =>
    by_cases empty : rsaKeys rsaKey d = []
    · have same : j.fetch rsaKey now (some d) = j := by simp only [Jwks.fetch,if_pos empty]
      refine .inl ⟨by rw [same],by rw [same],fun e is => ?_⟩
      rwa [← Option.some.inj is]
    · have read : j.fetch rsaKey now (some d) = {j with keys := rsaKeys rsaKey d,fetched := some now} := by
        simp only [Jwks.fetch,if_neg empty]
      exact .inr ⟨d,rfl,by rw [read],by rw [read]⟩

theorem fromKey (inv : FromCluster rsaKey world s) (one : s.key rsaKey world kid took answer = some t) :
    FromCluster rsaKey world t := by
  rcases keyCases one with ⟨-,rfl⟩ | ⟨-,-,within,rfl⟩
  · exact inv
  · obtain ⟨q,f,fetched,order,past,keys⟩ := inv.read
    rcases fetchCases {s.jwks with tried := some s.now} (s.now+took)
      (answer.map (fun d : Nat => world.published (s.now+d))) with ⟨same,same',-⟩ | ⟨doc,is,new,new'⟩
    · exact ⟨q,f,same'.trans fetched,order,by simp only; omega,same.trans keys⟩
    · obtain ⟨d,answered,rfl⟩ := Option.map_eq_some_iff.mp is
      have soon := within d answered
      exact ⟨s.now+d,s.now+took,new',by omega,Int.le_refl _,new⟩

theorem fromStep (inv : FromCluster rsaKey world s)
    (one : step rsaKey world rsaVerify decode c getenv call s a = some t) : FromCluster rsaKey world t := by
  refine stepKeeps (fun d inv => ?_) fromKey (fun file results inv => ⟨inv.read⟩) inv one
  obtain ⟨q,f,fetched,order,past,keys⟩ := inv.read
  exact ⟨q,f,fetched,order,by simp only; omega,keys⟩

theorem longerFalse {now d : Int} {t : Option Int} (calm : longer now t d = false) : ∃ τ, t = some τ ∧ now ≤ τ+d := by
  cases t with
  | none => cases calm
  | some τ =>
    rw [longer,Option.all_some,decide_eq_false_iff_not] at calm
    exact ⟨τ,rfl,by omega⟩

theorem withdrawnUntil {now read w : Int} {k : Authx.Bytes} (reached : Reachable (step rsaKey world rsaVerify decode c getenv call)
    (start rsaKey world now read) s) (order : read ≤ now) (withdrawn : Withdrawn rsaKey world kid k w)
    (one : s.key rsaKey world kid took answer = some t) (found : t.jwks.keys.lookup kid = some k) :
    ∃ q f, q < w ∧ q ≤ f ∧ f ≤ t.now ∧ t.jwks.fetched = some f ∧ t.jwks.keys = rsaKeys rsaKey (world.published q) ∧
      (s.now ≤ f+keysAge ∨ ∃ τ, t.asked.head? = some τ ∧ f ≤ τ ∧ s.now ≤ τ+triedAge) := by
  have spaced := reachableKeeps spacedStep ⟨.nil,rfl,fun τ mem => absurd mem List.not_mem_nil⟩ reached
  have cluster := reachableKeeps fromStep ⟨read,now,rfl,order,Int.le_refl _,rfl⟩ reached
  obtain ⟨q,f,fetched,earlier,past,keys⟩ := (fromKey cluster one).read
  have before : q < w := by
    refine Int.not_le.mp (fun late => ?_)
    rw [keys] at found
    exact withdrawn q late found
  refine ⟨q,f,before,earlier,past,fetched,keys,?_⟩
  rcases keyCases one with ⟨calm,rfl⟩ | ⟨-,-,-,rfl⟩
  · rw [Jwks.asks,found,Option.isNone_some,Bool.false_or,Bool.and_eq_false_iff] at calm
    rcases calm with fresh | asked
    · obtain ⟨f',same,soon⟩ := longerFalse fresh
      cases Option.some.inj (fetched.symm.trans same)
      exact .inl soon
    · obtain ⟨τ,tried,soon⟩ := longerFalse asked
      rcases Int.le_total t.now (f+keysAge) with young | old
      · exact .inl young
      · have gap : triedAge ≤ keysAge := by decide
        exact .inr ⟨τ,spaced.last.trans tried,by omega,soon⟩
  · obtain ⟨-,f',fetched',-,past',-⟩ := cluster.read
    rcases fetchCases {s.jwks with tried := some s.now} (s.now+took)
      (answer.map (fun d : Nat => world.published (s.now+d))) with ⟨-,same,-⟩ | ⟨-,-,-,new⟩
    · cases Option.some.inj (fetched.symm.trans (same.trans fetched'))
      have gap : (0 : Int) ≤ triedAge := by decide
      exact .inr ⟨s.now,rfl,past',by omega⟩
    · cases Option.some.inj (fetched.symm.trans new)
      have gap : (0 : Int) ≤ keysAge := by decide
      exact .inl (by omega)

theorem firstKeyUntil : ∃ s t, run turningStep (start joined turning (3050*second) (3050*second)) [.tick 70000000000] = some s ∧
    s.key joined turning "k1" 2000 none = some t ∧ t.jwks.keys.lookup "k1" = some [1,1,0,1] ∧
    ∃ q f, q < 3100*second ∧ q ≤ f ∧ f ≤ t.now ∧ t.jwks.fetched = some f ∧
      t.jwks.keys = rsaKeys joined (turning.published q) ∧
      (s.now ≤ f+keysAge ∨ ∃ τ, t.asked.head? = some τ ∧ f ≤ τ ∧ s.now ≤ τ+triedAge) := by
  have runs : (run turningStep (start joined turning (3050*second) (3050*second)) [.tick 70000000000]).bind (fun s =>
      (s.key joined turning "k1" 2000 none).map (fun t => t.jwks.keys.lookup "k1")) = some (some [1,1,0,1]) := by
    decide +kernel
  obtain ⟨s,ok,more⟩ := Option.bind_eq_some_iff.mp runs
  obtain ⟨t,one,found⟩ := Option.map_eq_some_iff.mp more
  have withdrawn : Withdrawn joined turning "k1" [1,1,0,1] (3100*second) := by
    intro q late
    have positive : 0 < second := by decide
    have only : turning.published q = [secondKey] := by
      simp only [turning]
      rw [if_neg (by omega),if_neg (by omega)]
    rw [only]
    decide +kernel
  exact ⟨s,t,ok,one,found,withdrawnUntil ⟨_,ok⟩ (Int.le_refl _) withdrawn one found⟩

section Seamless
variable (rsaKey : Authx.Bytes → Authx.Bytes → Authx.Bytes) (world : World)
  (rsaVerify : Authx.Bytes → Authx.Bytes → Authx.Bytes → Bool)
  (decode : String → Sent ServiceToken) (c : ServiceIdentityConfig) (getenv : Getenv) (call : Ctx)

def carriedFor : Int := 60*second+fetchTimeout

structure Good (p : Int) (t : ServiceToken) (k : Authx.Bytes) : Prop where
  alg : t.alg = some "RS256"
  issuer : t.issuer = c.issuerName
  audience : c.audienceName ∈ t.audience
  account : ∃ ns, serviceAccount t.subject = some (ns,call.fromService) ∧
    (c.allowedNS getenv).any (fun list => !list.contains ns) = false
  expires : ∃ exp, t.expiresAt = some exp ∧ p+carriedFor ≤ exp*second+30*second
  begins : ∀ nbf ∈ t.notBefore, nbf*second ≤ p+30*second
  signed : rsaVerify k t.message t.signature = true
  published : ∀ q, p-triedAge ≤ q → q ≤ p+carriedFor → (rsaKeys rsaKey (world.published q)).lookup (t.kid.getD "") = some k
  single : ∀ q k', (rsaKeys rsaKey (world.published q)).lookup (t.kid.getD "") = some k' → k' = k

def Rotates (hi : Int) : Prop := ∀ p ≤ hi, ∃ text t k, world.file p = some text ∧ trimmed text ≠ "" ∧
  decode (trimmed text) = .token t ∧ Good rsaKey world rsaVerify c getenv call p t k

def Answered : Action → Prop
  | .tick _ => True
  | .other _ _ answer | .own _ answer => answer.isSome = true

instance (a : Action) : Decidable (Answered a) := by
  unfold Answered
  cases a <;> infer_instance

structure Current (s : State) : Prop where
  cluster : FromCluster rsaKey world s
  tried : ∀ τ, s.jwks.tried = some τ → ∃ q, τ ≤ q ∧ q ≤ s.now ∧ s.jwks.keys = rsaKeys rsaKey (world.published q)
  kept : s.file.tok ≠ "" → ∃ p text, s.file.read = some p ∧ p ≤ s.now ∧ world.file p = some text ∧
    s.file.tok = trimmed text
  proven : ∀ r ∈ s.results, r = .ok call.fromService

end Seamless

theorem someKeys (rotates : Rotates rsaKey world rsaVerify decode c getenv call hi) {q : Int} (soon : q ≤ hi) :
    rsaKeys rsaKey (world.published q) ≠ [] := by
  obtain ⟨text,t,k,-,-,-,good⟩ := rotates q soon
  intro empty
  have gap : (0 : Int) ≤ triedAge ∧ 0 ≤ carriedFor := by decide
  have found := good.published q (by omega) (by omega)
  rw [empty] at found
  contradiction

theorem currentKey (rotates : Rotates rsaKey world rsaVerify decode c getenv call hi) (answered : answer.isSome = true)
    (inv : Current rsaKey world call s) (one : s.key rsaKey world kid took answer = some t) (before : t.now ≤ hi) :
    Current rsaKey world call t ∧ s.now ≤ t.now ∧ t.now ≤ s.now+fetchTimeout ∧ t.file = s.file := by
  have cluster := fromKey inv.cluster one
  rcases keyCases one with ⟨-,rfl⟩ | ⟨-,inTime,within,rfl⟩
  · exact ⟨inv,Int.le_refl _,Int.le_add_of_nonneg_right (by decide),rfl⟩
  · refine ⟨⟨cluster,fun τ last => ?_,fun some' => ?_,inv.proven⟩,Int.le_add_of_nonneg_right (Int.natCast_nonneg took),
      Int.add_le_add_left inTime s.now,rfl⟩
    · simp only [fetchTried] at last
      cases Option.some.inj last
      obtain ⟨d,given⟩ := Option.isSome_iff_exists.mp answered
      have soon := within d given
      rcases fetchCases {s.jwks with tried := some s.now} (s.now+took)
        (answer.map (fun d : Nat => world.published (s.now+d))) with ⟨-,-,empty⟩ | ⟨doc,is,new,-⟩
      · exact absurd (empty _ (by rw [given]; rfl)) (someKeys rotates (by simp only at before; omega))
      · rw [given] at is
        cases Option.some.inj is
        exact ⟨s.now+d,by omega,by simp only; omega,new⟩
    · obtain ⟨p,text,read,past,file,tok⟩ := inv.kept some'
      exact ⟨p,text,read,by simp only; omega,file,tok⟩

theorem keyFound {k : Authx.Bytes} (rotates : Rotates rsaKey world rsaVerify decode c getenv call hi)
    (answered : answer.isSome = true) (inv : Current rsaKey world call s)
    (published : ∀ q, s.now-triedAge ≤ q → q ≤ s.now+fetchTimeout →
      (rsaKeys rsaKey (world.published q)).lookup kid = some k)
    (single : ∀ q k', (rsaKeys rsaKey (world.published q)).lookup kid = some k' → k' = k)
    (one : s.key rsaKey world kid took answer = some t) (before : t.now ≤ hi) :
    t.jwks.keys.lookup kid = some k := by
  have gaps : (0 : Int) ≤ triedAge ∧ 0 ≤ fetchTimeout := by decide
  rcases keyCases one with ⟨calm,rfl⟩ | ⟨-,inTime,within,rfl⟩
  · obtain ⟨q,-,-,-,-,keys⟩ := inv.cluster.read
    cases found : t.jwks.keys.lookup kid with
    | some k' =>
      rw [keys] at found
      rw [single q k' found]
    | none =>
      rw [Jwks.asks,found,Option.isNone_none,Bool.true_or,Bool.true_and] at calm
      obtain ⟨τ,tried,soon⟩ := longerFalse calm
      obtain ⟨q,after,past,keys⟩ := inv.tried τ tried
      rw [keys,published q (by omega) (by omega)] at found
      contradiction
  · obtain ⟨d,given⟩ := Option.isSome_iff_exists.mp answered
    have soon := within d given
    rcases fetchCases {s.jwks with tried := some s.now} (s.now+took)
      (answer.map (fun d : Nat => world.published (s.now+d))) with ⟨-,-,empty⟩ | ⟨doc,is,new,-⟩
    · exact absurd (empty _ (by rw [given]; rfl)) (someKeys rotates (by simp only at before; omega))
    · rw [given] at is
      cases Option.some.inj is
      rw [new]
      exact published _ (by omega) (by omega)

theorem tokenRecent (rotates : Rotates rsaKey world rsaVerify decode c getenv call hi) (soon : s.now ≤ hi)
    (inv : Current rsaKey world call s) :
    ∃ p text, (s.file.get s.now (world.file s.now)).read = some p ∧ p ≤ s.now ∧ s.now < p+60*second ∧
      world.file p = some text ∧ (s.file.get s.now (world.file s.now)).tok = trimmed text := by
  unfold TokenFile.get
  split
  · rename_i kept
    obtain ⟨p,text,read,past,file,tok⟩ := inv.kept kept.2
    have recent := kept.1
    rw [read,Option.any_some,decide_eq_true_eq] at recent
    exact ⟨p,text,read,past,by omega,file,tok⟩
  · obtain ⟨text,-,-,file,-⟩ := rotates s.now soon
    rw [file]
    exact ⟨s.now,text,rfl,Int.le_refl _,Int.lt_add_of_pos_right _ (by decide),file,rfl⟩

theorem goodProven {p : Int} {st : ServiceToken} {k : Authx.Bytes} (good : Good rsaKey world rsaVerify c getenv call p st k)
    (found : u.jwks.keys.lookup (st.kid.getD "") = some k) (after : p ≤ u.now) (soon : u.now < p+carriedFor) :
    provenCaller (u.cluster rsaVerify) c getenv u.now {call with svcToken := .token st} = .ok call.fromService := by
  obtain ⟨ns,account,inside⟩ := good.account
  obtain ⟨exp,expires,late⟩ := good.expires
  have inTime : timely u.now st = true := by
    simp only [timely,expires,Option.any_some,Bool.and_eq_true,decide_eq_true_eq,Option.all_eq_true_iff_get]
    refine ⟨by omega,fun there => ?_⟩
    have := good.begins _ (Option.get_mem there)
    omega
  have checked : checkServiceToken (u.cluster rsaVerify) c u.now st = some (ns,call.fromService) := by
    have alg : ¬st.alg ≠ some "RS256" := not_not.mpr good.alg
    have key : (u.cluster rsaVerify).keys (st.kid.getD "") = some k := found
    have signed : (u.cluster rsaVerify).rsaVerify k st.message st.signature = true := good.signed
    rw [checkServiceToken,if_neg alg]
    simp only [key]
    rw [if_pos ⟨signed,good.issuer,good.audience,inTime⟩,account]
  exact tokenProven rfl checked inside rfl

theorem clockKeeps {now : Int} (inv : now ≤ s.now) (one : step rsaKey world rsaVerify decode c getenv call s a = some t) :
    now ≤ t.now := by
  refine stepKeeps (p := fun s => now ≤ s.now) (fun d inv => ?_) (fun inv one => ?_) (fun _ _ inv => inv) inv one
  · exact Int.le_trans inv (Int.le_add_of_nonneg_right (Int.natCast_nonneg d))
  · rcases keyCases one with ⟨-,rfl⟩ | ⟨-,-,-,rfl⟩
    · exact inv
    · exact Int.le_trans inv (Int.le_add_of_nonneg_right (Int.natCast_nonneg _))

theorem currentStep (rotates : Rotates rsaKey world rsaVerify decode c getenv call hi) (inv : Current rsaKey world call s)
    (answered : Answered a) (one : step rsaKey world rsaVerify decode c getenv call s a = some t) (soon : t.now ≤ hi) :
    Current rsaKey world call t := by
  have early : s.now ≤ hi := Int.le_trans (clockKeeps (Int.le_refl _) one) soon
  cases a with
  | tick d =>
    cases Option.some.inj one
    obtain ⟨q,f,fetched,order,past,keys⟩ := inv.cluster.read
    refine ⟨⟨q,f,fetched,order,by simp only; omega,keys⟩,fun τ last => ?_,fun some' => ?_,inv.proven⟩
    · obtain ⟨q,after,past,keys⟩ := inv.tried τ last
      exact ⟨q,after,by simp only; omega,keys⟩
    · obtain ⟨p,text,read,past,file,tok⟩ := inv.kept some'
      exact ⟨p,text,read,by simp only; omega,file,tok⟩
  | other kid took answer => exact (currentKey rotates answered inv one soon).1
  | own took answer =>
    simp only [step,bind] at one
    obtain ⟨u,checked,last⟩ := Option.bind_eq_some_iff.mp one
    cases Option.some.inj last
    obtain ⟨p,text,read,past,recent,file,tok⟩ := tokenRecent rotates early inv
    obtain ⟨text',st,k,file',filled,decoded,good⟩ := rotates p (Int.le_trans past early)
    cases Option.some.inj (file.symm.trans file')
    have token : sent decode (s.file.get s.now (world.file s.now)).tok = .token st := by
      rw [sent,tok,if_neg filled,decoded]
    have before : Current rsaKey world call {s with file := s.file.get s.now (world.file s.now)} :=
      ⟨⟨inv.cluster.read⟩,inv.tried,fun _ => ⟨p,text,read,past,file,tok⟩,inv.proven⟩
    rw [token,State.check,if_pos good.alg] at checked
    obtain ⟨after,later,inTime,-⟩ := currentKey rotates answered before checked soon
    have apart : carriedFor = 60*second+fetchTimeout := rfl
    have found : u.jwks.keys.lookup (st.kid.getD "") = some k :=
      keyFound rotates answered before (fun q low high => good.published q (by simp only at low; omega)
        (by simp only at high; omega)) good.single checked soon
    have proven := goodProven good found (by simp only at later; omega) (by simp only at inTime; omega)
    refine ⟨⟨after.cluster.read⟩,after.tried,after.kept,fun r mem => ?_⟩
    rcases List.mem_append.mp mem with old | new
    · exact after.proven r old
    · rw [List.mem_singleton.mp new,token,proven]

theorem rotatedProven {now read : Int} {as : List Action} (rotates : Rotates rsaKey world rsaVerify decode c getenv call hi)
    (order : read ≤ now) (answered : ∀ a ∈ as, Answered a)
    (ok : run (step rsaKey world rsaVerify decode c getenv call) (start rsaKey world now read) as = some s)
    (soon : s.now ≤ hi) : ∀ r ∈ s.results, r = .ok call.fromService := by
  have begins : Current rsaKey world call (start rsaKey world now read) :=
    ⟨⟨read,now,rfl,order,Int.le_refl _,rfl⟩,nofun,fun filled => absurd rfl filled,nofun⟩
  have keep {s t : State} {a : Action} (inv : hi < s.now ∨ Current rsaKey world call s) (answered : Answered a)
      (one : step rsaKey world rsaVerify decode c getenv call s a = some t) : hi < t.now ∨ Current rsaKey world call t := by
    rcases Int.lt_or_le hi t.now with late | soon
    · exact .inl late
    · rcases inv with late | current
      · exact .inl (Int.lt_of_lt_of_le late (clockKeeps (Int.le_refl _) one))
      · exact .inr (currentStep rotates current answered one soon)
  rcases runKeeps keep (.inr begins) (alongForall answered _) ok with late | current
  · omega
  · exact current.proven

theorem turnsInTime : Rotates joined turning appended decodeApi wallet.serviceIdentity noEnv apiCall (7000*second) := by
  intro p soon
  have first (q : Int) (early : q < 3100*second) :
      (rsaKeys joined (turning.published q)).lookup "k1" = some [1,1,0,1] := by
    unfold turning
    simp only
    split <;> decide +kernel
  have other (q : Int) (late : 2900*second ≤ q) : (rsaKeys joined (turning.published q)).lookup "k2" = some [2,1,0,1] := by
    unfold turning
    simp only
    rw [if_neg (by omega)]
    split <;> decide +kernel
  have alone (kid : String) (k k' : Authx.Bytes) (all : ∀ doc ∈ [[firstKey],[firstKey,secondKey],[secondKey]],
      ∀ k'' ∈ (rsaKeys joined doc).lookup kid, k'' = k) (q : Int)
      (found : (rsaKeys joined (turning.published q)).lookup kid = some k') : k' = k := by
    unfold turning at found
    simp only at found
    split at found
    · exact all _ (by decide) k' found
    · split at found
      · exact all _ (by decide) k' found
      · exact all _ (by decide) k' found
  by_cases early : p < 3000*second
  · refine ⟨"t1\n",apiToken "k1" [1,1,0,1] 3600,[1,1,0,1],if_pos early,by decide +kernel,by decide +kernel,?_⟩
    exact {
      alg := rfl
      issuer := by decide
      audience := by decide
      account := ⟨"sports",by decide +kernel,by decide +kernel⟩
      expires := ⟨3600,rfl,by simp only [carriedFor,fetchTimeout,second] at *; omega⟩
      begins := nofun
      signed := by decide
      published := fun q _ high => first q (by simp only [carriedFor,fetchTimeout,second] at *; omega)
      single := fun q k' => alone "k1" _ k' (by decide +kernel) q }
  · refine ⟨"t2\n",apiToken "k2" [2,1,0,1] 7200,[2,1,0,1],if_neg early,by decide +kernel,by decide +kernel,?_⟩
    exact {
      alg := rfl
      issuer := by decide
      audience := by decide
      account := ⟨"sports",by decide +kernel,by decide +kernel⟩
      expires := ⟨7200,rfl,by simp only [carriedFor,fetchTimeout,second] at *; omega⟩
      begins := nofun
      signed := by decide
      published := fun q low _ => other q (by simp only [triedAge,second] at *; omega)
      single := fun q k' => alone "k2" _ k' (by decide +kernel) q }

def turn : List Action :=
  [.own 1000 (some 0),.tick 2990000000000,.own 1000 (some 0),.other "x9" 2000 (some 1000),.tick 20000000000,
    .own 1000 (some 0),.tick 60000000000,.own 1000 (some 0),.tick 700000000000,.own 3000 (some 2000)]

theorem turnProven : ∃ s, run turningStep (start joined turning 0 0) turn = some s ∧ s.results.length = 5 ∧
    ∀ r ∈ s.results, r = .ok "ser-api" := by
  have runs : (run turningStep (start joined turning 0 0) turn).map (fun s => (s.results.length,s.now)) =
      some (5,3770*second+4000) := by decide +kernel
  obtain ⟨s,ok,both⟩ := Option.map_eq_some_iff.mp runs
  obtain ⟨results,now⟩ := Prod.mk.inj both
  exact ⟨s,ok,results,rotatedProven turnsInTime (Int.le_refl 0) (by decide) ok (by rw [now]; decide)⟩

end DevkitCommon.Kitexx.Server.Rotation
