import DevkitCommon.Lib.UTF8
import DevkitCommon.Webhookx.Signature
import Mathlib

/-! How a request to a provider proves who sends it, signed anew for every attempt, and that a
callback route with the same secret accepts what is signed here. -/
namespace DevkitCommon.Httpx.Signing
open DevkitCommon.JSON (Bytes bytes)
open Encodings Replacer Webhookx
open Text (encode64 formatInt parseFormat)

section Configured

structure Auth where
  type : String := ""
  token : String := ""
  username : String := ""
  password : String := ""
  secret : String := ""
  header : String := ""
  timestampHeader : String := ""
  payload : String := ""
  encoding : String := ""
  tokenURL : String := ""
  clientID : String := ""
  clientSecret : String := ""
  deriving DecidableEq, Repr

inductive AuthError where
  | required (provider field type : String)
  | badEncoding (provider encoding : String)
  | unknownType (provider type : String)
  deriving DecidableEq, Repr

def AuthError.text (quote : String → String) : AuthError → String
  | .required provider field type => "httpx: providers." ++ provider ++ ".auth." ++ field ++ " is required for type " ++
      type ++ " (is its environment variable set?)"
  | .badEncoding provider encoding => "httpx: providers." ++ provider ++ ".auth.encoding " ++ quote encoding ++ ": hex or base64"
  | .unknownType provider type => "httpx: providers." ++ provider ++ ".auth.type " ++ quote type ++
      ": one of bearer, basic, hmac-sha256, oauth2, custom"

def need (name type : String) : List (String × String) → Except AuthError Unit
  | [] => .ok ()
  | (field,value)::rest => if trimmed value = "" then .error (.required name field type) else need name type rest

def Auth.validate (a : Auth) (name : String) : Except AuthError Unit :=
  if a.type = "" ∨ a.type = "custom" then .ok ()
  else if a.type = "bearer" then need name a.type [("token",a.token)]
  else if a.type = "basic" then need name a.type [("username",a.username),("password",a.password)]
  else if a.type = "hmac-sha256" then
    if a.encoding ≠ "" ∧ a.encoding ≠ "hex" ∧ a.encoding ≠ "base64" then .error (.badEncoding name a.encoding)
    else need name a.type [("secret",a.secret)]
  else if a.type = "oauth2" then
    need name a.type [("token_url",a.tokenURL),("client_id",a.clientID),("client_secret",a.clientSecret)]
  else .error (.unknownType name a.type)

theorem needNames {name type : String} {e : AuthError} : {fields : List (String × String)} →
    need name type fields = .error e → ∃ front field value back, fields = front ++ (field,value)::back ∧
      e = .required name field type ∧ trimmed value = "" ∧ ∀ f ∈ front, trimmed f.2 ≠ ""
  | [],failed => nomatch failed
  | (field,value)::rest,failed => by
    rw [need] at failed
    split at failed
    · rename_i blank
      cases failed
      exact ⟨[],field,value,rest,rfl,rfl,blank,fun f inside => nomatch inside⟩
    · rename_i given
      obtain ⟨front,other,value',back,same,names,blank,before⟩ := needNames failed
      refine ⟨(field,value)::front,other,value',back,by rw [same,List.cons_append],names,blank,fun f inside => ?_⟩
      rcases List.mem_cons.mp inside with rfl | later
      · exact given
      · exact before f later

end Configured

section Signs

structure Request where
  method : String
  path : String
  query : String
  headers : List (String × String)
  deriving DecidableEq, Repr

def headerSet (headers : List (String × String)) (name value : String) : List (String × String) :=
  (canonicalKey name,value)::headers.filter (fun h => canonicalKey h.1 != canonicalKey name)

def Request.set (req : Request) (name value : String) : Request := {req with headers := headerSet req.headers name value}

def defaultHMACPayload : String := "\x7bmethod\x7d\n\x7bpath\x7d\n\x7btimestamp\x7d\n\x7bbody\x7d"

def payloadTemplate (a : Auth) : String := orElse a.payload defaultHMACPayload

def values (req : Request) (ts : String) (body : Bytes) : List (Bytes × Bytes) :=
  [(bytes "\\n",[0x0A]),(bytes "\x7bmethod\x7d",bytes req.method),(bytes "\x7bpath\x7d",bytes req.path),
    (bytes "\x7bquery\x7d",bytes req.query),(bytes "\x7btimestamp\x7d",bytes ts),(bytes "\x7bbody\x7d",body)]

def Auth.signatureHeader (a : Auth) : String := orElse a.header "X-Signature"

def Auth.timed (a : Auth) : Bool := Words.contains (payloadTemplate a).toList "\x7btimestamp\x7d".toList

def Auth.tsHeader (a : Auth) : String :=
  if a.timestampHeader = "" ∧ a.timed then "X-Timestamp" else a.timestampHeader

def Auth.encode (a : Auth) (sum : Bytes) : String :=
  String.ofList (if a.encoding = "base64" then encode64 sum else hex sum)

def stamp (now : Reading) : String := formatInt (now.nanos/1000000000)

def Auth.sum (a : Auth) (now : Reading) (req : Request) (body : Bytes) : Bytes :=
  SHA256.hmac (bytes a.secret) (replace (values req (stamp now) body) (bytes (payloadTemplate a)))

def signHMAC (a : Auth) (now : Reading) (req : Request) (body : Bytes) : Request :=
  let signed := req.set a.signatureHeader (a.encode (a.sum now req body))
  if a.tsHeader ≠ "" then signed.set a.tsHeader (stamp now) else signed

def setBasicAuth (req : Request) (username password : String) : Request :=
  req.set "Authorization" ("Basic " ++ String.ofList (encode64 (bytes (username ++ ":" ++ password))))

inductive SignError where
  | token (name text : String)
  | readBody (text : String)
  | errNoSigner
  | sign (name text : String)
  deriving DecidableEq, Repr

def SignError.text : SignError → String
  | .token name text => "httpx: " ++ name ++ ": oauth2 token: " ++ text
  | .readBody text => "httpx: read request body for signing: " ++ text
  | .errNoSigner =>
    "httpx: auth.type custom but no signer set; call rt.Provider(name).UseSigner(...) in app.Setup"
  | .sign name text => "httpx: " ++ name ++ ": sign: " ++ text

/- What the transport has beside the request: the token source's answer, as the Authorization it
sets, the request's body as it is read, and the signer that UseSigner has set. -/
structure Around where
  now : Reading
  token : Except String String
  body : Except String Bytes
  signer : Option (Request → Bytes → Except String Request)

def Auth.roundTrip (a : Auth) (name : String) (around : Around) (req : Request) : Except SignError Request :=
  if a.type = "bearer" then .ok (req.set "Authorization" ("Bearer " ++ a.token))
  else if a.type = "basic" then .ok (setBasicAuth req a.username a.password)
  else if a.type = "oauth2" then
    match around.token with
    | .error text => .error (.token name text)
    | .ok header => .ok (req.set "Authorization" header)
  else if a.type = "hmac-sha256" then
    match around.body with
    | .error text => .error (.readBody text)
    | .ok body => .ok (signHMAC a around.now req body)
  else if a.type = "custom" then
    match around.signer,around.body with
    | none,_ => .error .errNoSigner
    | some _,.error text => .error (.readBody text)
    | some sign,.ok body =>
      match sign req body with
      | .error text => .error (.sign name text)
      | .ok signed => .ok signed
  else .ok req

end Signs

section Headers
variable {headers : List (String × String)} {name other value : String}

def cased (first : Bool) (c : Char) : Char := if first then c.toUpper else c.toLower

theorem tokenASCII {c : Char} (token : tokenChar c = true) : c.toNat < 128 := by
  simp only [tokenChar,Bool.or_eq_true,List.contains_iff_mem] at token
  rcases token with letter | sign
  · simp only [Char.isAlphanum,Char.isAlpha,Char.isUpper,Char.isLower,Char.isDigit,Bool.or_eq_true,
      Bool.and_eq_true,decide_eq_true_eq,UInt32.le_iff_toNat_le,ge_iff_le] at letter
    have same : c.toNat = c.val.toNat := rfl
    have capital : 'Z'.val.toNat = 90 := rfl
    have small : 'z'.val.toNat = 122 := rfl
    have digit : '9'.val.toNat = 57 := rfl
    omega
  · exact UTF8.asciiAll (k := "!#$%&'*+-.^_`|~".toList) (by decide) c sign

theorem casedToken {c : Char} (token : tokenChar c = true) (first : Bool) : tokenChar (cased first c) = true ∧
    cased first (cased first c) = cased first c ∧ (cased first c == '-') = (c == '-') := by
  have all : ∀ n < 128, tokenChar (Char.ofNat n) = true → ∀ first : Bool,
      tokenChar (cased first (Char.ofNat n)) = true ∧
      cased first (cased first (Char.ofNat n)) = cased first (Char.ofNat n) ∧
      (cased first (Char.ofNat n) == '-') = (Char.ofNat n == '-') := by decide +kernel
  have here := all c.toNat (tokenASCII token)
  rw [Char.ofNat_toNat] at here
  exact here token first

theorem canonicalAgain (first : Bool) {cs : List Char} (tokens : ∀ c ∈ cs, tokenChar c = true) :
    canonicalFrom first (canonicalFrom first cs) = canonicalFrom first cs ∧
    ∀ c ∈ canonicalFrom first cs, tokenChar c = true := by
  induction cs generalizing first with
  | nil => exact ⟨rfl,fun c inside => nomatch inside⟩
  | cons c rest ih =>
    obtain ⟨kept,same,dash⟩ := casedToken (tokens c List.mem_cons_self) first
    obtain ⟨again,all⟩ := ih (c == '-') (fun d inside => tokens d (List.mem_cons_of_mem c inside))
    have front : canonicalFrom first (c::rest) = cased first c::canonicalFrom (c == '-') rest := rfl
    have twice : canonicalFrom first (cased first c::canonicalFrom (c == '-') rest) =
        cased first (cased first c)::canonicalFrom (cased first c == '-') (canonicalFrom (c == '-') rest) := rfl
    rw [front,twice,same,dash,again]
    refine ⟨rfl,fun d inside => ?_⟩
    rcases List.mem_cons.mp inside with rfl | later
    · exact kept
    · exact all d later

theorem canonicalTwice (name : String) : canonicalKey (canonicalKey name) = canonicalKey name := by
  by_cases tokens : name.toList.all tokenChar = true
  · obtain ⟨again,all⟩ := canonicalAgain true (List.all_eq_true.mp tokens)
    have first : canonicalKey name = String.ofList (canonicalFrom true name.toList) := if_pos tokens
    have second : (canonicalFrom true name.toList).all tokenChar = true := List.all_eq_true.mpr all
    rw [first,canonicalKey,String.toList_ofList,if_pos second,again]
  · have raw : canonicalKey name = name := if_neg tokens
    rw [raw,raw]

theorem getSet (same : canonicalKey name = canonicalKey other) : headerGet (headerSet headers name value) other = value := by
  simp [headerGet,headerSet,canonicalTwice,same]

theorem getOther (apart : canonicalKey name ≠ canonicalKey other) :
    headerGet (headerSet headers name value) other = headerGet headers other := by
  have kept : (headers.filter (fun h => canonicalKey h.1 != canonicalKey name)).find?
      (fun h => canonicalKey h.1 == canonicalKey other) = headers.find? (fun h => canonicalKey h.1 == canonicalKey other) := by
    rw [List.find?_filter]
    congr 1
    funext h
    by_cases here : canonicalKey h.1 = canonicalKey other
    · simp [here,Ne.symm apart]
    · simp [here]
  simp only [headerGet,headerSet,List.find?_cons,canonicalTwice,kept]
  rw [show (canonicalKey name == canonicalKey other) = false from beq_false_of_ne apart]

end Headers

section Spelled

theorem trimmedPlain {t : Words.Text} (plain : ∀ c ∈ t, Words.space c = false) :
    trimmed (String.ofList t) = String.ofList t := by
  have stays {l : Words.Text} (all : ∀ c ∈ l, Words.space c = false) : l.dropWhile Words.space = l := by
    cases l with
    | nil => rfl
    | cons c rest => exact List.dropWhile_cons_of_neg (by simp [all c List.mem_cons_self])
  have turned : ∀ c ∈ t.reverse, Words.space c = false := fun c inside => plain c (List.mem_reverse.mp inside)
  simp only [trimmed,Words.trimSpace,Words.trim,Words.trimRight,Words.trimLeft,String.toList_ofList,stays plain,
    stays turned,List.reverse_reverse]

theorem hexPlain (bs : Bytes) : ∀ c ∈ hex bs, Words.space c = false ∧ c ≠ '=' := by
  have letters : ∀ k < 16, Words.space (JSON.hexLetter k) = false ∧ JSON.hexLetter k ≠ '=' := by decide
  intro c inside
  obtain ⟨b,-,two⟩ := List.mem_flatMap.mp inside
  have small : b.toNat < 256 := UInt8.toNat_lt b
  simp only [List.mem_cons,List.not_mem_nil,or_false] at two
  rcases two with rfl | rfl
  · exact letters _ (by omega)
  · exact letters _ (by omega)

theorem encodePlain (bs : Bytes) : ∀ c ∈ encode64 bs, Words.space c = false := by
  have letters : ∀ n < 64, Words.space (Text.letter n) = false := by decide +kernel
  have pad : Words.space '=' = false := by decide
  fun_induction encode64 bs with
  | case1 => exact fun _ inside => absurd inside List.not_mem_nil
  | case2 x =>
    have hx := x.toNat_lt
    simp only [List.forall_mem_cons]
    exact ⟨letters _ (by omega),letters _ (by omega),pad,pad,fun _ inside => absurd inside List.not_mem_nil⟩
  | case3 x y =>
    have hx := x.toNat_lt
    have hy := y.toNat_lt
    simp only [List.forall_mem_cons]
    exact ⟨letters _ (by omega),letters _ (by omega),letters _ (by omega),pad,fun _ inside => absurd inside List.not_mem_nil⟩
  | case4 x y z rest ih =>
    have hx := x.toNat_lt
    have hy := y.toNat_lt
    have hz := z.toNat_lt
    simp only [List.forall_mem_cons]
    exact ⟨letters _ (by omega),letters _ (by omega),letters _ (by omega),letters _ (by omega),ih⟩

theorem stampPlain (now : Reading) : trimmed (stamp now) = stamp now := by
  have digits : ∀ c ∈ (stamp now).toList, Words.space c = false := by
    intro c inside
    rcases Text.formatChars _ c inside with digit | rfl
    · have token : tokenChar c = true := by simp [tokenChar,Char.isAlphanum,digit]
      have none : ∀ n < 128, (Char.ofNat n).isDigit = true → Words.space (Char.ofNat n) = false := by decide +kernel
      exact Words.forASCII (p := fun c => c.isDigit = true → Words.space c = false) none (tokenASCII token) digit
    · decide
  have same := trimmedPlain digits
  rwa [String.ofList_toList] at same

theorem afterPlain {t : Words.Text} (plain : ∀ c ∈ t, c ≠ '=') : afterEquals t = t := by
  have whole : t.reverse.takeWhile (fun c => c != '=') = t.reverse :=
    List.takeWhile_eq_self_iff.mpr (fun c inside => by simpa using plain c (List.mem_reverse.mp inside))
  rw [afterEquals,whole,List.reverse_reverse]

end Spelled

section Accepted

structure Agrees (a : Auth) (v : CallbackVerify) : Prop where
  signs : a.type = "hmac-sha256"
  verifies : v.type = "hmac-sha256"
  secret : v.secret = a.secret
  template : v.template = payloadTemplate a
  encoding : v.base64 = (a.encoding == "base64")
  signature : canonicalKey v.signatureHeader = canonicalKey a.signatureHeader
  time : a.timed = true → canonicalKey v.tsHeader = canonicalKey a.tsHeader
  apart : a.tsHeader ≠ "" → canonicalKey a.tsHeader ≠ canonicalKey a.signatureHeader

structure Arrived (v : CallbackVerify) (sent : Request) (body : Bytes) (ev : Event) (query : String) : Prop where
  method : ev.method = sent.method
  path : ev.path = sent.path
  query : query = sent.query
  body : ev.body = body
  signature : headerGet ev.headers v.signatureHeader = headerGet sent.headers v.signatureHeader
  time : headerGet ev.headers v.tsHeader = headerGet sent.headers v.tsHeader

variable {a : Auth} {v : CallbackVerify} {req sent : Request} {body : Bytes} {ev : Event} {query : String}
  {at' now : Reading}

theorem timedSame (agrees : Agrees a v) : v.timed = a.timed := by
  rw [CallbackVerify.timed,agrees.template,Auth.timed]

theorem signatureSent (agrees : Agrees a v) : headerGet (signHMAC a at' req body).headers v.signatureHeader =
    a.encode (a.sum at' req body) := by
  unfold signHMAC
  dsimp only
  split
  · rename_i named
    have apart : canonicalKey a.tsHeader ≠ canonicalKey v.signatureHeader := by
      rw [agrees.signature]
      exact agrees.apart named
    rw [Request.set,getOther apart]
    exact getSet agrees.signature.symm
  · exact getSet agrees.signature.symm

theorem timeSent (agrees : Agrees a v) (timed : a.timed = true) :
    headerGet (signHMAC a at' req body).headers v.tsHeader = stamp at' := by
  have named : a.tsHeader ≠ "" := by
    unfold Auth.tsHeader
    split
    · decide
    · rename_i given
      exact fun empty => given ⟨empty,timed⟩
  simp only [signHMAC,if_pos named]
  exact getSet (agrees.time timed).symm

theorem encodeSpaced (bs : Bytes) : trimmed (a.encode bs) = a.encode bs := by
  refine trimmedPlain (fun c inside => ?_)
  split at inside
  · exact encodePlain bs c inside
  · exact (hexPlain bs c inside).1

theorem encodeSame (agrees : Agrees a v) (bs : Bytes) : (a.encode bs).toList = v.encode bs := by
  rw [Auth.encode,String.toList_ofList,CallbackVerify.encode,agrees.encoding]
  simp only [beq_iff_eq]

theorem comparedSame (agrees : Agrees a v) (bs : Bytes) (got : v.got ev = a.encode bs) :
    v.compared ev = v.encode bs := by
  rw [CallbackVerify.compared,got,encodeSame agrees]
  split
  · rfl
  · rename_i hexed
    have spelled : v.encode bs = hex bs := if_neg hexed
    rw [spelled]
    exact afterPlain (fun c inside => (hexPlain bs c inside).2)

theorem tsRead (agrees : Agrees a v) (arrived : Arrived v (signHMAC a at' req body) body ev query) (timed : a.timed = true) :
    v.ts ev = stamp at' := by
  rw [CallbackVerify.ts,timedSame agrees,if_pos timed,arrived.time,timeSent agrees timed,stampPlain]

theorem signedKeeps (a : Auth) (at' : Reading) (req : Request) (body : Bytes) :
    (signHMAC a at' req body).method = req.method ∧ (signHMAC a at' req body).path = req.path ∧
    (signHMAC a at' req body).query = req.query := by
  unfold signHMAC
  dsimp only
  split <;> exact ⟨rfl,rfl,rfl⟩

theorem untimedSame (untimed : a.timed = false) (req : Request) (ts other : String) (body : Bytes) :
    replace (values req ts body) (bytes (payloadTemplate a)) = replace (values req other body) (bytes (payloadTemplate a)) := by
  have absent : ¬ bytes "\x7btimestamp\x7d" <:+: bytes (payloadTemplate a) := by
    intro found
    have inside := UTF8.infixBytes (k := "\x7btimestamp\x7d".toList) (UTF8.asciiAll (by decide)) (by decide) found
    rw [Auth.timed,Words.contains,decide_eq_false_iff_not] at untimed
    exact untimed inside
  exact (replaceAbsent [_,_,_,_] [_] (bytes ts) absent).trans (replaceAbsent [_,_,_,_] [_] (bytes other) absent).symm

theorem payloadSame (agrees : Agrees a v) (arrived : Arrived v (signHMAC a at' req body) body ev query) :
    replace (placeholders ev query (v.ts ev)) (bytes v.template) =
      replace (values req (stamp at') body) (bytes (payloadTemplate a)) := by
  obtain ⟨method,path,asked⟩ := signedKeeps a at' req body
  have listed : placeholders ev query (v.ts ev) = values req (v.ts ev) body := by
    rw [placeholders,values,arrived.method,arrived.path,arrived.query,arrived.body,method,path,asked]
  rw [listed,agrees.template]
  cases timed : a.timed with
  | true => rw [tsRead agrees arrived timed]
  | false => exact untimedSame timed req (v.ts ev) (stamp at') body

theorem timeRead (agrees : Agrees a v) (arrived : Arrived v (signHMAC a at' req body) body ev query) :
    checkTimestamp now v ev = .ok () ↔
      (a.timed = true → (since now (at'.nanos/1000000000) : Int) ≤ v.allowed) := by
  rw [checkTimestamp,timedSame agrees]
  split
  · rename_i timed
    have fits : Text.fits 64 (at'.nanos/1000000000) = true := by
      have real := at'.real
      have bounds : -9223372036854775808 ≤ at'.nanos/1000000000 ∧ at'.nanos/1000000000 < 9223372036854775808 := by omega
      exact decide_eq_true bounds
    rw [tsRead agrees arrived timed,stamp,parseFormat fits]
    dsimp only
    split
    · rename_i off
      exact iff_of_false (fun ok => nomatch ok) (fun within => absurd (within timed) (Int.not_le.mpr off))
    · rename_i within
      exact iff_of_true rfl (fun _ => Int.not_lt.mp within)
  · rename_i untimed
    exact iff_of_true rfl (fun timed => absurd timed untimed)

theorem signedRequest {name : String} {around : Around} (signs : a.type = "hmac-sha256")
    (signed : a.roundTrip name around req = .ok sent) (read : around.body = .ok body) :
    sent = signHMAC a around.now req body := by
  have other : a.type ≠ "bearer" ∧ a.type ≠ "basic" ∧ a.type ≠ "oauth2" := by
    rw [signs]
    decide
  rw [Auth.roundTrip,if_neg other.1,if_neg other.2.1,if_neg other.2.2,if_pos signs,read] at signed
  exact (Except.ok.inj signed).symm

theorem verifyRoute [Words.Letters] (agrees : Agrees a v) (verifier : Event → Option String) :
    verify verifier now v ev query = verifyHMAC now v ev query := by
  have other : v.type ≠ "" ∧ v.type ≠ "custom" ∧ v.type ≠ "basic" := by
    rw [agrees.verifies]
    decide
  rw [verify,if_neg other.1,if_neg other.2.1,if_neg other.2.2,if_pos agrees.verifies]

theorem carriedAccepted [Words.Letters] (agrees : Agrees a v)
    (carried : headerGet ev.headers v.signatureHeader = a.encode (a.sum at' req body)) :
    verifyHMAC now v ev query = .ok () ↔ checkTimestamp now v ev = .ok () ∧
      Words.toLower (v.encode (a.sum at' req body)) = Words.toLower (v.encode
        (SHA256.hmac (bytes v.secret) (replace (placeholders ev query (v.ts ev)) (bytes v.template)))) := by
  have got : v.got ev = a.encode (a.sum at' req body) := by
    rw [CallbackVerify.got,carried,encodeSpaced]
  have only : (∃ sum, Hash v ev query sum ∧ Alike v ev sum) ↔ Alike v ev
      (SHA256.hmac (bytes v.secret) (replace (placeholders ev query (v.ts ev)) (bytes v.template))) := by
    constructor
    · intro ⟨sum,hash,alike⟩
      exact hashIff.mp hash ▸ alike
    · exact fun alike => ⟨_,hashIff.mpr rfl,alike⟩
  rw [verifiedIff,timestampIff,only,Alike,comparedSame agrees _ got]

theorem arrivedAccepted [Words.Letters] (agrees : Agrees a v) (arrived : Arrived v (signHMAC a at' req body) body ev query) :
    verifyHMAC now v ev query = .ok () ↔
      (a.timed = true → (since now (at'.nanos/1000000000) : Int) ≤ v.allowed) := by
  have carried : headerGet ev.headers v.signatureHeader = a.encode (a.sum at' req body) := by
    rw [arrived.signature,signatureSent agrees]
  have same := payloadSame agrees arrived
  rw [carriedAccepted agrees carried,timeRead agrees arrived,agrees.secret,same]
  exact and_iff_left rfl

theorem signedAccepted [Words.Letters] (name : String) (around : Around) (agrees : Agrees a v)
    (signed : a.roundTrip name around req = .ok sent) (read : around.body = .ok body)
    (arrived : Arrived v sent body ev query) (verifier : Event → Option String) :
    verify verifier now v ev query = .ok () ↔
      (a.timed = true → (since now (around.now.nanos/1000000000) : Int) ≤ v.allowed) := by
  obtain rfl := signedRequest agrees.signs signed read
  rw [verifyRoute agrees]
  exact arrivedAccepted agrees arrived

theorem alteredAccepted [Words.Letters] (name : String) (around : Around) (agrees : Agrees a v)
    (signed : a.roundTrip name around req = .ok sent) (read : around.body = .ok body)
    (carried : headerGet ev.headers v.signatureHeader = headerGet sent.headers v.signatureHeader)
    (verifier : Event → Option String) (accepted : verify verifier now v ev query = .ok ()) :
    checkTimestamp now v ev = .ok () ∧
    if v.base64 then Words.toLower (encode64 (a.sum around.now req body)) = Words.toLower (encode64
        (SHA256.hmac (bytes v.secret) (replace (placeholders ev query (v.ts ev)) (bytes v.template))))
    else a.sum around.now req body =
        SHA256.hmac (bytes v.secret) (replace (placeholders ev query (v.ts ev)) (bytes v.template)) := by
  obtain rfl := signedRequest agrees.signs signed read
  rw [signatureSent agrees] at carried
  rw [verifyRoute agrees,carriedAccepted agrees carried] at accepted
  refine ⟨accepted.1,?_⟩
  have alike := accepted.2
  unfold CallbackVerify.encode at alike
  split
  · rename_i base64
    rwa [if_pos base64,if_pos base64] at alike
  · rename_i hexed
    rw [if_neg hexed,if_neg hexed,hexLower (SHA256.hmac _ _)] at alike
    have read' := (unhexLower _ _).mp alike
    have self := (unhexLower _ _).mp (hexLower (a.sum around.now req body))
    exact Option.some.inj (self.symm.trans read')

def merchant : Auth := {type := "hmac-sha256",secret := "s3",payload := "\x7bmethod\x7d \x7btimestamp\x7d.\x7bbody\x7d"}

def paid : CallbackVerify :=
  ⟨"hmac-sha256","s3","x-signature","\x7bmethod\x7d \x7btimestamp\x7d.\x7bbody\x7d","hex","",0,"",""⟩

def payout : Request := ⟨"POST","/callbacks/pay/paid","",[]⟩

def signedAt : Reading := ⟨1700000000250000000,by decide⟩

def payoutSigned : Request := signHMAC merchant signedAt payout [0x7B,0x7D]

def payoutSeen : Event := ⟨"pay","","POST","/callbacks/pay/paid",payoutSigned.headers,[0x7B,0x7D],"203.0.113.7"⟩

theorem merchantAgrees : Agrees merchant paid :=
  ⟨rfl,rfl,rfl,rfl,by decide,by decide,fun _ => by decide,fun _ => by decide⟩

theorem payoutArrived : Arrived paid payoutSigned [0x7B,0x7D] payoutSeen "" := by
  obtain ⟨method,path,query⟩ := signedKeeps merchant signedAt payout [0x7B,0x7D]
  exact ⟨method.symm,path.symm,query.symm,rfl,rfl,rfl⟩

def around : Around := ⟨signedAt,.ok "",.ok [0x7B,0x7D],none⟩

def fiveMinutesLater : Reading := ⟨1700000300000000000,by decide⟩

theorem payoutSent : merchant.roundTrip "pay" around payout = .ok payoutSigned := rfl

theorem payoutAccepted : verify (fun _ => none) fiveMinutesLater paid payoutSeen "" = .ok () := by
  refine (signedAccepted "pay" around merchantAgrees payoutSent rfl payoutArrived (fun _ => none)).mpr (fun _ => ?_)
  decide

theorem payoutHash : checkTimestamp fiveMinutesLater paid payoutSeen = .ok () ∧
    if paid.base64 then Words.toLower (encode64 (merchant.sum signedAt payout [0x7B,0x7D])) = Words.toLower (encode64
        (SHA256.hmac (bytes paid.secret) (replace (placeholders payoutSeen "" (paid.ts payoutSeen)) (bytes paid.template))))
    else merchant.sum signedAt payout [0x7B,0x7D] =
        SHA256.hmac (bytes paid.secret) (replace (placeholders payoutSeen "" (paid.ts payoutSeen)) (bytes paid.template)) := by
  have accepted : verify (fun _ => none) fiveMinutesLater paid payoutSeen "" = .ok () := by
    rw [verifyRoute merchantAgrees]
    exact (arrivedAccepted merchantAgrees payoutArrived).mpr (fun _ => by decide)
  exact alteredAccepted "pay" around merchantAgrees payoutSent rfl rfl (fun _ => none) accepted

end Accepted

section Basic
variable {a : Auth} {v : CallbackVerify} {req sent : Request} {ev : Event} {query : String} {now : Reading}

theorem colonFree {u : String} (plain : ':' ∉ u.toList) : (0x3A : UInt8) ∉ bytes u := by
  intro inside
  obtain ⟨front,back,split⟩ := List.append_of_mem inside
  have found : UTF8.utf8 [':'] <:+: UTF8.utf8 u.toList := ⟨front,back,by
    rw [List.append_assoc]
    exact split.symm⟩
  have here := UTF8.infixBytes (UTF8.asciiAll (by decide)) (by decide) found
  exact plain (here.subset List.mem_cons_self)

theorem parseSet {u p : String} (plain : ':' ∉ u.toList) :
    parseBasic ("Basic " ++ String.ofList (encode64 (bytes (u ++ ":" ++ p)))) = some (bytes u,bytes p) := by
  have text : ("Basic " ++ String.ofList (encode64 (bytes (u ++ ":" ++ p)))).toList =
      "Basic ".toList ++ encode64 (bytes (u ++ ":" ++ p)) := by
    simp only [String.toList_append,String.toList_ofList]
  have parts : bytes (u ++ ":" ++ p) = bytes u ++ 0x3A::bytes p := by
    simp only [bytes,String.toList_append,List.flatMap_append,List.append_assoc]
    rfl
  have apart : ∀ b ∈ bytes u, (b != 0x3A) = true := fun b inside => by
    simpa using fun same : b = 0x3A => colonFree plain (same ▸ inside)
  have colon : (0x3A : UInt8) ∈ bytes u ++ 0x3A::bytes p := List.mem_append_right _ List.mem_cons_self
  have first : (bytes u ++ 0x3A::bytes p).takeWhile (fun c => c != 0x3A) = bytes u := by
    rw [List.takeWhile_append_of_pos apart,List.takeWhile_cons_of_neg (by decide),List.append_nil]
  have second : (bytes u ++ 0x3A::bytes p).dropWhile (fun c => c != 0x3A) = 0x3A::bytes p := by
    rw [List.dropWhile_append_of_pos apart,List.dropWhile_cons_of_neg (by decide)]
  have cut : ("Basic ".toList ++ encode64 (bytes (u ++ ":" ++ p))).drop 6 = encode64 (bytes (u ++ ":" ++ p)) := rfl
  rw [parseBasic,text,if_pos (List.prefix_append _ _),cut,Text.decodeEncode,parts]
  simp only [if_pos colon,first,second,List.drop_succ_cons,List.drop_zero]

theorem basicAccepted [Words.Letters] (name : String) (around : Around) (signs : a.type = "basic") (verifies : v.type = "basic")
    (plain : ':' ∉ a.username.toList) (signed : a.roundTrip name around req = .ok sent)
    (arrived : headerGet ev.headers "Authorization" = headerGet sent.headers "Authorization")
    (verifier : Event → Option String) :
    verify verifier now v ev query = .ok () ↔ v.username = a.username ∧ v.password = a.password := by
  have other : a.type ≠ "bearer" ∧ v.type ≠ "" ∧ v.type ≠ "custom" := by
    rw [signs,verifies]
    decide
  rw [Auth.roundTrip,if_neg other.1,if_pos signs] at signed
  obtain rfl := Except.ok.inj signed
  rw [setBasicAuth,Request.set,getSet rfl] at arrived
  rw [verify,if_neg other.2.1,if_neg other.2.2,if_pos verifies,verifyBasic,arrived,parseSet plain]
  constructor
  · intro accepted
    split at accepted
    · rename_i same
      obtain ⟨user,password⟩ := Prod.mk.inj (Option.some.inj same)
      exact ⟨(bytesInj user).symm,(bytesInj password).symm⟩
    · cases accepted
  · intro same
    rw [same.1,same.2,if_pos rfl]

def vendor : Auth := {type := "basic",username := "vendor",password := "p:w"}

def vendorSeen : Event := ⟨"pay","","POST","/",[("Authorization","Basic dmVuZG9yOnA6dw==")],[],"203.0.113.7"⟩

theorem vendorAccepted :
    verify (fun _ => none) signedAt ⟨"basic","","","","","",0,"vendor","p:w"⟩ vendorSeen "" = .ok () ↔
      "vendor" = vendor.username ∧ "p:w" = vendor.password := by
  have sent : vendor.roundTrip "pay" around payout = .ok (setBasicAuth payout "vendor" "p:w") := rfl
  exact basicAccepted "pay" around rfl rfl (by decide) sent (by decide) (fun _ => none)

end Basic

end DevkitCommon.Httpx.Signing
