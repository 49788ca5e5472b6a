import DevkitCommon.Lib.Encodings
import DevkitCommon.Lib.Replacer
import DevkitCommon.Lib.SHA256
import DevkitCommon.Webhookx.EventID

/-! The check that a callback is from its provider: the signature over a payload that the
request's values are put into, and when it was signed. -/
namespace DevkitCommon.Webhookx
open DevkitCommon.JSON (Bytes bytes)
open Encodings Replacer
open Text (encode64 decode64 parseInt signed fits)

structure CallbackVerify where
  type : String
  secret : String
  header : String
  payload : String
  encoding : String
  timestampHeader : String
  maxSkew : Int64
  username : String
  password : String
  deriving DecidableEq, Repr

/- What a clock reads, in nanoseconds; none reads 2^62 seconds. -/
structure Reading where
  nanos : Int
  real : -4611686018427387904000000000 ≤ nanos ∧ nanos ≤ 4611686018427387904000000000
  deriving DecidableEq, Repr

inductive VerifyError where
  | custom (text : String)
  | basic
  | noHeader (header : String)
  | notTimestamp (header : String)
  | timestampOff (skew : Nat)
  | mismatch
  | unknownType (type : String)
  deriving DecidableEq, Repr

section Texts

def orElse (s default : String) : String := if s = "" then default else s

def maxDuration : Nat := 9223372036854775807

def roundedText (d : Nat) : String :=
  let whole := (d + 500000000)/1000000000
  let (h,m,s) := (whole/3600,whole%3600/60,whole%60)
  if maxDuration < whole*1000000000 then "2562047h47m16.854775807s"
  else if h ≠ 0 then toString h ++ "h" ++ toString m ++ "m" ++ toString s ++ "s"
  else if m ≠ 0 then toString m ++ "m" ++ toString s ++ "s"
  else toString s ++ "s"

def notFromProvider : String := "webhookx: request is not from the provider"

def VerifyError.text (quote : String → String) : VerifyError → String
  | .custom text => notFromProvider ++ ": " ++ text
  | .basic => notFromProvider ++ ": basic credentials"
  | .noHeader header => notFromProvider ++ ": no " ++ header ++ " header"
  | .notTimestamp header => notFromProvider ++ ": " ++ header ++ " is not a unix timestamp"
  | .timestampOff skew => notFromProvider ++ ": timestamp off by " ++ roundedText skew
  | .mismatch => notFromProvider ++ ": signature mismatch"
  | .unknownType type => "webhookx: unknown verify type " ++ quote type

end Texts
section Basic

def parseBasic (h : String) : Option (Bytes × Bytes) :=
  if "Basic ".toList <+: h.toList then
    match decode64 (h.toList.drop 6) with
    | some b => if (0x3A : UInt8) ∈ b then some (b.takeWhile (fun c => c != 0x3A),(b.dropWhile (fun c => c != 0x3A)).drop 1)
      else none
    | none => none
  else none

def verifyBasic (v : CallbackVerify) (ev : Event) : Except VerifyError Unit :=
  if parseBasic (headerGet ev.headers "Authorization") = some (bytes v.username,bytes v.password) then .ok ()
  else .error .basic

end Basic
section Signature

def CallbackVerify.signatureHeader (v : CallbackVerify) : String := orElse v.header "X-Signature"
def CallbackVerify.tsHeader (v : CallbackVerify) : String := orElse v.timestampHeader "X-Timestamp"
def CallbackVerify.template (v : CallbackVerify) : String := orElse v.payload "\x7bbody\x7d"
def CallbackVerify.base64 (v : CallbackVerify) : Bool := v.encoding == "base64"

def CallbackVerify.allowed (v : CallbackVerify) : Int := if v.maxSkew = 0 then 300000000000 else v.maxSkew.toInt

def CallbackVerify.timed (v : CallbackVerify) : Bool := Words.contains v.template.toList "\x7btimestamp\x7d".toList

def CallbackVerify.got (v : CallbackVerify) (ev : Event) : String := trimmed (headerGet ev.headers v.signatureHeader)

def CallbackVerify.ts (v : CallbackVerify) (ev : Event) : String :=
  if v.timed then trimmed (headerGet ev.headers v.tsHeader) else ""

/- time.Since(time.Unix(sec, 0)).Abs(): what is longer than a duration can be is the longest. -/
def since (now : Reading) (sec : Int) : Nat := min (now.nanos - sec*1000000000).natAbs maxDuration

def placeholders (ev : Event) (query ts : String) : List (Bytes × Bytes) :=
  [(bytes "\\n",[0x0A]),(bytes "\x7bmethod\x7d",bytes ev.method),(bytes "\x7bpath\x7d",bytes ev.path),
    (bytes "\x7bquery\x7d",bytes query),(bytes "\x7btimestamp\x7d",bytes ts),(bytes "\x7bbody\x7d",ev.body)]

/- Some vendors prefix the scheme: what stands after the last sign. -/
def afterEquals (t : Words.Text) : Words.Text := (t.reverse.takeWhile (fun c => c != '=')).reverse

def CallbackVerify.compared (v : CallbackVerify) (ev : Event) : Words.Text :=
  if v.base64 then (v.got ev).toList else afterEquals (v.got ev).toList

def CallbackVerify.encode (v : CallbackVerify) (sum : Bytes) : Words.Text := if v.base64 then encode64 sum else hex sum

def checkTimestamp (now : Reading) (v : CallbackVerify) (ev : Event) : Except VerifyError Unit :=
  if v.timed then
    match parseInt 64 (v.ts ev) with
    | none => .error (.notTimestamp v.tsHeader)
    | some sec => if v.allowed < since now sec then .error (.timestampOff (since now sec)) else .ok ()
  else .ok ()

def verifyHMAC [Words.Letters] (now : Reading) (v : CallbackVerify) (ev : Event) (query : String) : Except VerifyError Unit := do
  if v.got ev = "" then throw (.noHeader v.signatureHeader)
  checkTimestamp now v ev
  let payload := replace (placeholders ev query (v.ts ev)) (bytes v.template)
  let sum := SHA256.hmac (bytes v.secret) payload
  if Words.toLower (v.compared ev) ≠ Words.toLower (v.encode sum) then throw .mismatch

end Signature

def verify [Words.Letters] (verifier : Event → Option String) (now : Reading) (v : CallbackVerify) (ev : Event) (query : String) :
    Except VerifyError Unit :=
  if v.type = "" then .ok ()
  else if v.type = "custom" then
    match verifier ev with
    | some text => .error (.custom text)
    | none => .ok ()
  else if v.type = "basic" then verifyBasic v ev
  else if v.type = "hmac-sha256" then verifyHMAC now v ev query
  else .error (.unknownType v.type)

section Claim

def CallbackVerify.decode (v : CallbackVerify) (t : Words.Text) : Option Bytes :=
  if v.base64 then decode64 t else unhex t

def Timely (now : Reading) (v : CallbackVerify) (ev : Event) : Prop :=
  v.timed = true → ∃ sec, signed (v.ts ev).toList = some sec ∧ ((now.nanos - sec*1000000000).natAbs : Int) ≤ v.allowed

def Hash (v : CallbackVerify) (ev : Event) (query : String) (sum : Bytes) : Prop :=
  ∃ payload, Replaced (placeholders ev query (v.ts ev)) (bytes v.template) payload ∧
    sum = SHA256.hmac (bytes v.secret) payload

structure Authentic (now : Reading) (v : CallbackVerify) (ev : Event) (query : String) : Prop where
  signed : ∃ sum, Hash v ev query sum ∧ v.decode (v.compared ev) = some sum
  timely : Timely now v ev

def Alike [Words.Letters] (v : CallbackVerify) (ev : Event) (sum : Bytes) : Prop :=
  Words.toLower (v.compared ev) = Words.toLower (v.encode sum)
instance [Words.Letters] (v : CallbackVerify) (ev : Event) (sum : Bytes) : Decidable (Alike v ev sum) := by
  unfold Alike
  infer_instance

/- A base64 header that is not the hash's own text: it is that text in another case, or is
read as the hash for all that. -/
def Respelled [Words.Letters] (v : CallbackVerify) (ev : Event) (sum : Bytes) : Prop :=
  v.base64 = true ∧ v.compared ev ≠ encode64 sum ∧ (Alike v ev sum ∨ v.decode (v.compared ev) = some sum)

def Far (now : Reading) (v : CallbackVerify) (ev : Event) : Prop :=
  v.timed = true ∧ v.allowed = maxDuration ∧
    ∃ sec, parseInt 64 (v.ts ev) = some sec ∧ maxDuration < (now.nanos - sec*1000000000).natAbs

variable {now : Reading} {v : CallbackVerify} {ev : Event} {query : String} {sum : Bytes}

theorem placeholderKeys (ev : Event) (query ts : String) : Keys ((placeholders ev query ts).map Prod.fst) := by
  have names : (placeholders ev query ts).map Prod.fst = [bytes "\\n",bytes "\x7bmethod\x7d",bytes "\x7bpath\x7d",
    bytes "\x7bquery\x7d",bytes "\x7btimestamp\x7d",bytes "\x7bbody\x7d"] := rfl
  rw [names]
  exact ⟨by decide,by decide⟩

theorem hashIff : Hash v ev query sum ↔
    sum = SHA256.hmac (bytes v.secret) (replace (placeholders ev query (v.ts ev)) (bytes v.template)) := by
  constructor
  · rintro ⟨payload,replaced,same⟩
    rw [same,(replacedIff (placeholderKeys ev query (v.ts ev))).mp replaced]
  · exact fun same => ⟨_,(replacedIff (placeholderKeys ev query (v.ts ev))).mpr rfl,same⟩

theorem allowedLe (v : CallbackVerify) : v.allowed ≤ 9223372036854775807 := by
  have top := Int64.toInt_lt v.maxSkew
  unfold CallbackVerify.allowed
  split
  · decide
  · omega

theorem farUntimely (far : Far now v ev) : ¬ Timely now v ev := by
  obtain ⟨timed,longest,sec,read,beyond⟩ := far
  intro timely
  obtain ⟨sec',read',near⟩ := timely timed
  obtain ⟨same,_⟩ := Option.filter_eq_some_iff.mp read
  obtain rfl := Option.some.inj (same.symm.trans read')
  omega

theorem nearFits {sec : Int} (near : ((now.nanos - sec*1000000000).natAbs : Int) ≤ v.allowed) : fits 64 sec = true := by
  have top := allowedLe v
  have real := now.real
  have bounds : -9223372036854775808 ≤ sec ∧ sec < 9223372036854775808 := by omega
  exact decide_eq_true bounds

theorem timestampIff : checkTimestamp now v ev = .ok () ↔ Timely now v ev ∨ Far now v ev := by
  unfold checkTimestamp
  split
  · rename_i timed
    constructor
    · intro passed
      split at passed
      · cases passed
      · rename_i sec read
        split at passed
        · cases passed
        · rename_i within
          by_cases beyond : maxDuration < (now.nanos - sec*1000000000).natAbs
          · have top := allowedLe v
            have longest : v.allowed = maxDuration := by
              unfold since maxDuration at *
              omega
            exact .inr ⟨timed,longest,sec,read,beyond⟩
          · have near : ((now.nanos - sec*1000000000).natAbs : Int) ≤ v.allowed := by
              unfold since maxDuration at *
              omega
            exact .inl (fun _ => ⟨sec,(Option.filter_eq_some_iff.mp read).1,near⟩)
    · rintro (timely | ⟨_,longest,sec,read,_⟩)
      · obtain ⟨sec,same,near⟩ := timely timed
        have read : parseInt 64 (v.ts ev) = some sec := Option.filter_eq_some_iff.mpr ⟨same,nearFits near⟩
        have within : ¬ v.allowed < since now sec := by
          unfold since
          omega
        rw [read]
        exact if_neg within
      · have within : ¬ v.allowed < since now sec := by
          unfold since
          omega
        rw [read]
        exact if_neg within
  · rename_i untimed
    exact iff_of_true rfl (.inl (fun timed => absurd timed untimed))

theorem encodeSome [Words.Letters] (key payload : Bytes) : v.encode (SHA256.hmac key payload) ≠ [] := by
  have size := SHA256.hmacSize key payload
  intro empty
  have none : v.decode [] = some (SHA256.hmac key payload) := by
    unfold CallbackVerify.encode CallbackVerify.decode at *
    split
    · rename_i base64
      rw [if_pos base64] at empty
      rw [← empty,Text.decodeEncode]
    · rename_i hexed
      rw [if_neg hexed] at empty
      have read := (unhexLower (hex (SHA256.hmac key payload)) (SHA256.hmac key payload)).mp (hexLower _)
      rw [← empty,read]
  have read : v.decode [] = some [] := by
    unfold CallbackVerify.decode
    split <;> rfl
  rw [read] at none
  rw [← Option.some.inj none] at size
  cases size

theorem notThrown {c : Prop} [Decidable c] {e : VerifyError} :
    (if c then (throw e : Except VerifyError Unit) else pure ()) = .ok () ↔ ¬ c := by
  split
  · rename_i holds
    exact iff_of_false (fun ok => nomatch ok) (fun fails => fails holds)
  · rename_i fails
    exact iff_of_true rfl fails

theorem verifiedIff [Words.Letters] : verifyHMAC now v ev query = .ok () ↔
    (Timely now v ev ∨ Far now v ev) ∧ ∃ sum, Hash v ev query sum ∧ Alike v ev sum := by
  rw [← timestampIff]
  have only : (∃ sum, Hash v ev query sum ∧ Alike v ev sum) ↔
      Alike v ev (SHA256.hmac (bytes v.secret) (replace (placeholders ev query (v.ts ev)) (bytes v.template))) := by
    constructor
    · rintro ⟨sum,hash,alike⟩
      exact hashIff.mp hash ▸ alike
    · exact fun alike => ⟨_,hashIff.mpr rfl,alike⟩
  rw [only]
  unfold verifyHMAC
  by_cases empty : v.got ev = ""
  · refine iff_of_false (fun passed => ?_) (fun both => ?_)
    · rw [if_pos empty] at passed
      cases passed
    · have nothing : v.compared ev = [] := by
        unfold CallbackVerify.compared
        rw [empty]
        split <;> rfl
      have alike := both.2
      rw [Alike,nothing] at alike
      exact encodeSome _ _ (List.map_eq_nil_iff.mp alike.symm)
  · rw [if_neg empty]
    cases passed : checkTimestamp now v ev with
    | error e => exact iff_of_false (fun ok => nomatch ok) (fun both => nomatch both.1)
    | ok =>
      have last := (notThrown (e := .mismatch)).trans (not_not (a := Alike v ev
        (SHA256.hmac (bytes v.secret) (replace (placeholders ev query (v.ts ev)) (bytes v.template)))))
      exact ⟨fun ok => ⟨rfl,last.mp ok⟩,fun both => last.mpr both.2⟩

theorem alikeIff [Words.Letters] (own : ¬ Respelled v ev sum) : Alike v ev sum ↔ v.decode (v.compared ev) = some sum := by
  by_cases base64 : v.base64 = true
  · have exact : v.decode (encode64 sum) = some sum := (if_pos base64).trans (Text.decodeEncode sum)
    by_cases same : v.compared ev = encode64 sum
    · have encoded : v.encode sum = encode64 sum := if_pos base64
      rw [Alike,same,encoded,exact]
      exact iff_of_true rfl rfl
    · exact iff_of_false (fun alike => own ⟨base64,same,.inl alike⟩) (fun read => own ⟨base64,same,.inr read⟩)
  · have encoded : v.encode sum = hex sum := if_neg base64
    have decoded : v.decode (v.compared ev) = unhex (v.compared ev) := if_neg base64
    rw [Alike,encoded,decoded,hexLower]
    exact unhexLower _ _

theorem respelledApart [Words.Letters] (respelled : Respelled v ev sum) : ¬ (Alike v ev sum ↔ v.decode (v.compared ev) = some sum) := by
  obtain ⟨base64,other,either⟩ := respelled
  intro both
  have alike : Alike v ev sum := either.elim id both.mpr
  have read := both.mp alike
  rw [CallbackVerify.decode,if_pos base64] at read
  rw [Alike,CallbackVerify.encode,if_pos base64] at alike
  exact other (sameText alike read)

theorem signatureChecked [Words.Letters] (verifier : Event → Option String) (hmac : v.type = "hmac-sha256") :
    (verify verifier now v ev query = .ok () ↔ Authentic now v ev query) ↔
      ∀ sum, Hash v ev query sum →
        ¬ (Timely now v ev ∧ Respelled v ev sum) ∧ ¬ (Far now v ev ∧ Alike v ev sum) := by
  have code : verify verifier now v ev query = verifyHMAC now v ev query := by
    have other : v.type ≠ "" ∧ v.type ≠ "custom" ∧ v.type ≠ "basic" := by
      rw [hmac]
      decide
    rw [verify,if_neg other.1,if_neg other.2.1,if_neg other.2.2,if_pos hmac]
  obtain ⟨sum,hash⟩ : ∃ sum, Hash v ev query sum := ⟨_,hashIff.mpr rfl⟩
  have only {other : Bytes} (hash' : Hash v ev query other) : other = sum := (hashIff.mp hash').trans (hashIff.mp hash).symm
  have passes : verifyHMAC now v ev query = .ok () ↔ (Timely now v ev ∨ Far now v ev) ∧ Alike v ev sum := by
    rw [verifiedIff]
    exact ⟨fun ⟨time,_,hash',alike⟩ => ⟨time,only hash' ▸ alike⟩,fun ⟨time,alike⟩ => ⟨time,sum,hash,alike⟩⟩
  have genuine : Authentic now v ev query ↔ Timely now v ev ∧ v.decode (v.compared ev) = some sum := by
    constructor
    · rintro ⟨⟨_,hash',read⟩,timely⟩
      exact ⟨timely,only hash' ▸ read⟩
    · rintro ⟨timely,read⟩
      exact ⟨⟨sum,hash,read⟩,timely⟩
  rw [code,passes,genuine]
  constructor
  · intro same sum' hash'
    rw [only hash']
    constructor
    · rintro ⟨timely,respelled⟩
      refine respelledApart respelled ⟨fun alike => ?_,fun read => ?_⟩
      · exact (same.mp ⟨.inl timely,alike⟩).2
      · exact (same.mpr ⟨timely,read⟩).2
    · rintro ⟨far,alike⟩
      exact farUntimely far (same.mp ⟨.inr far,alike⟩).1
  · intro plain
    obtain ⟨own,within⟩ := plain sum hash
    constructor
    · rintro ⟨timely | far,alike⟩
      · exact ⟨timely,(alikeIff (fun respelled => own ⟨timely,respelled⟩)).mp alike⟩
      · exact absurd ⟨far,alike⟩ within
    · rintro ⟨timely,read⟩
      exact ⟨.inl timely,(alikeIff (fun respelled => own ⟨timely,respelled⟩)).mpr read⟩

def signedBy (encoding payload : String) : CallbackVerify :=
  ⟨"hmac-sha256","s3","",payload,encoding,"",0,"",""⟩

def delivered (headers : List (String × String)) : Event :=
  ⟨"pay","","POST","/callbacks/pay/paid",headers,[0x7B,0x7D],"203.0.113.7"⟩

def late : Reading := ⟨1700000100000000000,by decide⟩

theorem prefixedSignature : Authentic late (signedBy "" "\x7btimestamp\x7d.\x7bbody\x7d")
    (delivered [("X-Signature","sha256=496ab1ad816cb59cf52b5b40688848f76e513b79c29b90f63b0a4de0afc228f0"),
      ("X-Timestamp","1700000000")]) "" := by
  exact ((signatureChecked (fun _ => none) rfl).mpr (fun sum _ =>
    ⟨fun both => absurd both.2.1 (by decide),fun both => absurd both.1.2.1 (by decide +kernel)⟩)).mp (by decide +kernel)

theorem otherCase :
    verify (fun _ => none) late (signedBy "base64" "")
      (delivered [("X-Signature","u1bSePmUahCF3XyqI9/Ozp1WRZmFJoO7HT99ePKOy4s=")]) "" = .ok () ∧
    ¬ Authentic late (signedBy "base64" "") (delivered [("X-Signature","u1bSePmUahCF3XyqI9/Ozp1WRZmFJoO7HT99ePKOy4s=")]) "" := by
  refine ⟨by decide +kernel,fun ⟨⟨sum,hash,read⟩,_⟩ => ?_⟩
  rw [hashIff.mp hash] at read
  exact absurd read (by decide +kernel)

end Claim
end DevkitCommon.Webhookx
