import DevkitCommon.Authx.Session
import DevkitCommon.Lib.Text
import Mathlib.Data.List.AList

/-! The access token as a gateway and a service behind it check it: the keys a
configuration stands for, parse, Verify with its reads of Redis and TokenChecker's Check.
The schemes are parameters: nothing is assumed of them. A token here is one that decodes;
the verifier's clock is its own, in nanoseconds. -/
namespace DevkitCommon.Authx
open Machine Redis Text

abbrev Bytes := List UInt8

/- SHA-256, Ed25519 and HMAC-SHA256: of a seed the public key, of a key, a text and a
signature whether it is good, of a key and a text its code. -/
structure Schemes where
  sha256 : Bytes → Vector UInt8 32
  publicOf : Bytes → Bytes
  edVerify : Bytes → Bytes → Bytes → Bool
  hmac256 : Bytes → Bytes → Bytes

structure AuthConfig extends Config where
  enabled : Bool
  privateKey : String
  publicKeys : List String
  secret : String
  realm : String

def spaces : List Nat := [0x9,0xa,0xb,0xc,0xd,0x20,0x85,0xa0,0x1680,0x2000,0x2001,0x2002,0x2003,0x2004,0x2005,0x2006,
  0x2007,0x2008,0x2009,0x200a,0x2028,0x2029,0x202f,0x205f,0x3000]

def isSpace (c : Char) : Bool := decide (c.toNat ∈ spaces)

def trimSpace (s : String) : List Char := ((s.toList.dropWhile isSpace).reverse.dropWhile isSpace).reverse

def utf8 (cs : List Char) : Bytes := cs.flatMap String.utf8EncodeChar

def realmStart (c : Char) : Bool := decide ('a' ≤ c ∧ c ≤ 'z')
def realmRest (c : Char) : Bool := realmStart c || c.isDigit || c = '_'

def realmValid (realm : String) : Bool :=
  match realm.toList with
  | [] => false
  | c::rest => realmStart c && rest.all realmRest && decide (rest.length ≤ 31)

def hexDigit (n : Nat) : Char := "0123456789abcdef".toList.getD n '0'
def hex (bs : Bytes) : List Char := bs.flatMap (fun b => [hexDigit (b.toNat/16),hexDigit (b.toNat%16)])

def seedSize : Nat := 32
def publicKeySize : Nat := 32
def minSecret : Nat := 32

structure KeyRing where
  secret : Option Bytes
  privateKey : Option Bytes
  kid : String
  publicKeys : AList (fun _ : String => Bytes)

section Keys
variable (schemes : Schemes)

def keyID (pub : Bytes) : String := String.ofList (hex ((schemes.sha256 pub).toList.take 4))

def KeyRing.add (k : KeyRing) (pub : Bytes) : KeyRing := {k with publicKeys := k.publicKeys.insert (keyID schemes pub) pub}

def sized (size : Nat) (cs : List Char) : Option Bytes := (decode64 cs).filter (fun bs => bs.length = size)

def loadSecret (secret : String) (k : KeyRing) : KeyRing × Option String :=
  let s := trimSpace secret
  if s = [] then (k,none)
  else if (utf8 s).length < minSecret then
    (k,some "authx: auth.secret must be at least 32 characters, or empty")
  else ({k with secret := some (utf8 s)},none)

def loadPrivate (privateKey : String) (k : KeyRing) : KeyRing × Option String :=
  let s := trimSpace privateKey
  if s = [] then (k,none)
  else match sized seedSize s with
    | none => (k,some "authx: auth.private_key must be the base64 of a 32-byte Ed25519 seed")
    | some seed =>
      let pub := schemes.publicOf seed
      (({k with privateKey := some seed, kid := keyID schemes pub} : KeyRing).add schemes pub,none)

def loadPublic : List String → KeyRing → KeyRing × Option String
  | [],k => (k,none)
  | entry::rest,k =>
    let s := trimSpace entry
    if s = [] then loadPublic rest k
    else match sized publicKeySize s with
      | none => (k,some ("authx: auth.public_keys: " ++ Text.quote (String.ofList s) ++
          " is not the base64 of a 32-byte Ed25519 public key"))
      | some pub => loadPublic rest (k.add schemes pub)

def loadKeys (cfg : AuthConfig) : KeyRing × Option String :=
  match loadSecret cfg.secret ⟨none,none,"",∅⟩ with
  | (k,some e) => (k,some e)
  | (k,none) =>
    match loadPrivate schemes cfg.privateKey k with
    | (k,some e) => (k,some e)
    | (k,none) => loadPublic schemes cfg.publicKeys k

def validateRealm (realm : String) : Option String :=
  if realm = "" then
    some "authx: auth.realm is required for a gateway (member, admin, agent, or a realm of the project's own)"
  else if realmValid realm then none
  else some ("authx: auth.realm " ++ Text.quote realm ++
    ": lowercase letters, digits and underscores, starting with a letter, at most 32 characters")

def validate (verifier : Bool) (cfg : AuthConfig) : Option String :=
  if cfg.enabled = false then none
  else match loadKeys schemes cfg with
    | (_,some e) => some e
    | (k,none) =>
      if verifier = false ∧ k.privateKey = none ∧ k.secret = none then
        some "authx: the issuer needs auth.private_key (AUTH_JWT_PRIVATE_KEY, an Ed25519 seed) or the legacy auth.secret; is the variable set?"
      else if verifier = true ∧ k.publicKeys.keys = [] ∧ k.secret = none then
        some "authx: a gateway needs auth.public_keys (AUTH_JWT_PUBLIC_KEY) or the legacy auth.secret; is the variable set?"
      else if verifier then validateRealm cfg.realm
      else none

structure Verifier where
  cfg : AuthConfig
  keys : KeyRing

structure TokenChecker where
  keys : KeyRing
  issuer : String

def newVerifier (cfg : AuthConfig) (redis : Bool) : Except String Verifier :=
  match validate schemes true cfg with
  | some e => .error e
  | none =>
    if redis then .ok ⟨cfg,(loadKeys schemes cfg).1⟩
    else .error "authx: the verifier needs Redis (redis.enabled) to check sessions"

def checkerConfig (publicKeys : List String) (issuer : String) : AuthConfig where
  issuer := issuer
  accessTTL := 0
  refreshTTL := 0
  singleSession := none
  enabled := false
  privateKey := ""
  publicKeys := publicKeys
  secret := ""
  realm := ""

def newTokenChecker (publicKeys : List String) (issuer : String) : Except String TokenChecker :=
  match loadKeys schemes (checkerConfig publicKeys issuer) with
  | (_,some e) => .error e
  | (k,none) =>
    if k.publicKeys.keys = [] then
      .error "authx: a token checker needs at least one public key (AUTH_JWT_PUBLIC_KEY)"
    else .ok ⟨k,(checkerConfig publicKeys issuer).issuerName⟩

end Keys

/- The claims that a check reads. Dates are whole seconds. -/
structure TokenClaims where
  issuer : String
  subject : String
  id : Jti
  expiresAt : Option Int
  notBefore : Option Int
  realm : String
  sid : Sid
  deriving DecidableEq, Repr

/- A header that is missing or no text is none. message is what the signature is over. -/
structure AccessToken where
  alg : Option String
  kid : Option String
  claims : TokenClaims
  message : Bytes
  signature : Bytes
  deriving DecidableEq, Repr

structure Identity where
  realm : String
  uid : Int
  sid : Sid
  jti : Jti
  exp : Option Int
  deriving DecidableEq, Repr

inductive Refusal where
  | invalidToken
  | sessionCheck (wrapped : String)
  | revoked (reason : String)
  deriving DecidableEq, Repr

inductive Method where
  | edDSA
  | hs256
  deriving DecidableEq, Repr

def method (alg : Option String) : Option Method :=
  if alg = some "EdDSA" then some .edDSA else if alg = some "HS256" then some .hs256 else none

def checkLeeway : Int := 30*second

section Check
variable (schemes : Schemes)

def signedBy (k : KeyRing) (t : AccessToken) : Bool :=
  match method t.alg with
  | some .edDSA =>
    match k.publicKeys.lookup (t.kid.getD "") with
    | some pub => schemes.edVerify pub t.message t.signature
    | none => false
  | some .hs256 =>
    match k.secret with
    | some key => decide (schemes.hmac256 key t.message = t.signature)
    | none => false
  | none => false

/- WithExpirationRequired and WithLeeway. A token that says from when it counts is held to
it without an option; when it was issued is not looked at. -/
def inTime (leeway now : Int) (c : TokenClaims) : Bool :=
  c.expiresAt.any (fun exp => decide (now < exp*second + leeway)) &&
    c.notBefore.all (fun nbf => decide (nbf*second - leeway ≤ now))

def parse (k : KeyRing) (issuer : String) (leeway now : Int) (t : AccessToken) : Option TokenClaims :=
  if signedBy schemes k t ∧ t.claims.issuer = issuer ∧ inTime leeway now t.claims then some t.claims else none

def subjectUID (subject : String) : Option Int := (parseInt 64 subject).filter (fun uid => 0 < uid)

/- The two EXISTS go in one pipeline that is no MULTI, and a GET of the reason may follow:
each finds Redis at a moment of its own. -/
structure Reads where
  blacklist : State
  alive : State
  ended : State
  pipeline : Reply
  reason : Reply

def Reads.blacklisted (r : Reads) (id : Jti) : Bool := (get r.blacklist.keys.blacklist r.blacklist.clock id).isSome

def Reads.revoked (r : Reads) (sid : Sid) : Refusal :=
  .revoked (if r.reason = .ok then (get r.ended.keys.ended r.ended.clock sid).getD "" else "")

def verify (v : Verifier) (now : Int) (r : Reads) (t : AccessToken) : Except Refusal Identity :=
  match parse schemes v.keys v.cfg.issuerName 0 now t with
  | none => .error .invalidToken
  | some c =>
    if c.realm ≠ v.cfg.realm then .error .invalidToken
    else match subjectUID c.subject with
      | none => .error .invalidToken
      | some uid =>
        if r.pipeline ≠ .ok then .error (.sessionCheck "authx: session check")
        else if r.blacklisted c.id then .error (.revoked reasonLogout)
        else if r.alive.alive c.sid then .ok ⟨c.realm,uid,c.sid,c.id,c.expiresAt⟩
        else .error (r.revoked c.sid)

def check (c : TokenChecker) (now : Int) (t : AccessToken) : Except Refusal Identity :=
  match parse schemes c.keys c.issuer checkLeeway now t with
  | none => .error .invalidToken
  | some claims =>
    match subjectUID claims.subject with
    | none => .error .invalidToken
    | some uid => .ok ⟨claims.realm,uid,claims.sid,claims.id,claims.expiresAt⟩

end Check
end DevkitCommon.Authx
