import DevkitCommon.Hertzx.ClientIP

/-! The middleware of the edges, and what their keys decide: a request that carries one and
its address is its edge's, every other is judged by its connection, or refused. -/
namespace DevkitCommon.Hertzx.Address
open Authx IP Text Kitexx.Client

variable {Header : Type} (headers : Headers Header) (trusted : List IPNet)

structure Passage (Header : Type) where
  verdict : Verdict
  context : Context Header
  counted : Option (String × String)

def notViaEdge : Verdict := .refused 403 1011 "请求未经平台入口"

def edge (e : EdgeSet) (c : Context Header) : Passage Header :=
  let seen := (clientIP headers trusted (some e) c).2
  let r := seen.edgeResult.getD unjudged
  let passed : Context Header :=
    {seen with header := headers.del seen.header e.keyHeader,edgeName := if r.edge ≠ "" then r.edge else seen.edgeName}
  ⟨if e.required = true ∧ r.ip = "" ∧ isFrameworkPath c.path = false then notViaEdge else .next,passed,
    some (r.edge,r.result.label)⟩

def throughEdge (e : EdgeSet) (c : Context Header) : Passage Header :=
  if e.enabled then edge headers trusted e c else ⟨.next,c,none⟩

variable {headers trusted}

def Vouches (headers : Headers Header) (e : EdgeSet) (c : Context Header) (x : EdgeRule) (ip : String) : Prop :=
  ∃ k v, headers.peekAll c.header e.keyHeader = [k] ∧ x ∈ e.list ∧ k ∈ x.keys ∧
    headers.peekAll c.header x.ipHeader = [v] ∧ parseEdgeIP (runes v) = some ip

section Judge
variable {e : EdgeSet} {c : Context Header} {x : EdgeRule} {ip : String}

theorem parsedNe {cs : List Char} (read : parseEdgeIP cs = some ip) : ip ≠ "" := by
  unfold parseEdgeIP at read
  simp only at read
  split at read
  · contradiction
  split at read
  · contradiction
  split at read
  · contradiction
  cases Option.some.inj read
  simpa using addrNe _

theorem edgeReadIP {v : Bytes} (once : headers.peekAll c.header x.ipHeader = [v])
    (read : parseEdgeIP (runes v) = some ip) : (edgeRead headers trusted c x).ip = ip := by
  unfold edgeRead
  simp only [once,read]
  split
  · rfl
  · rfl

theorem edgeReadFrom (some' : (edgeRead headers trusted c x).ip ≠ "") :
    ∃ v ip, headers.peekAll c.header x.ipHeader = [v] ∧ parseEdgeIP (runes v) = some ip := by
  unfold edgeRead at some'
  split at some'
  · rename_i v once
    cases read : parseEdgeIP (runes v) with
    | none =>
      simp only [read] at some'
      exact absurd rfl some'
    | some ip => exact ⟨v,ip,once,read⟩
  · exact absurd rfl some'

theorem judgeVouched (good : e.WellFormed) (vouched : Vouches headers e c x ip) :
    (edgeJudge headers trusted (some e) c).ip = ip := by
  obtain ⟨k,v,key,inList,owned,once,read⟩ := vouched
  have on : e.enabled = true := by
    cases empty : e.list with
    | nil => exact absurd inList (by simp [empty])
    | cons y list => simp [EdgeSet.enabled,empty]
  have found := (matchedExactly good).mpr ⟨inList,owned⟩
  simp only [edgeJudge,on,key,found,Bool.true_eq_false,if_false]
  exact edgeReadIP once read

theorem judgeFrom (good : e.WellFormed) (some' : (edgeJudge headers trusted (some e) c).ip ≠ "") :
    ∃ x ip, Vouches headers e c x ip := by
  simp only [edgeJudge] at some'
  split at some'
  · exact absurd rfl some'
  split at some'
  · exact absurd rfl some'
  · rename_i k key
    cases found : e.matched k with
    | none =>
      simp only [found] at some'
      exact absurd rfl some'
    | some x =>
      simp only [found] at some'
      obtain ⟨v,ip,once,read⟩ := edgeReadFrom some'
      have owner := (matchedExactly good).mp found
      exact ⟨x,ip,k,v,key,owner.1,owner.2,once,read⟩
  · exact absurd rfl some'

theorem judgeBare (good : e.WellFormed) (bare : ∀ x ip, ¬ Vouches headers e c x ip) :
    (edgeJudge headers trusted (some e) c).ip = "" := by
  by_contra other
  obtain ⟨x,ip,vouched⟩ := judgeFrom good other
  exact bare x ip vouched

end Judge

section Request
variable {e : EdgeSet} {c d : Context Header} {x : EdgeRule} {ip : String}

theorem edgeOfFresh (edges : Option EdgeSet) (fresh : c.edgeResult = none) :
    edgeOf headers trusted edges c =
      (edgeJudge headers trusted edges c,{c with edgeResult := some (edgeJudge headers trusted edges c)}) := by
  simp only [edgeOf,fresh]

theorem vouchedIP (good : e.WellFormed) (fresh : c.edgeResult = none) (vouched : Vouches headers e c x ip) :
    (clientIP headers trusted (some e) c).1 = ip := by
  obtain ⟨k,v,key,inList,owned,once,read⟩ := vouched
  have judged := @judgeVouched _ headers trusted _ _ _ _ good ⟨k,v,key,inList,owned,once,read⟩
  have filled := parsedNe read
  simp only [clientIP,edgeOfFresh _ fresh,judged,ne_eq,filled,not_false_eq_true,if_true]

theorem bareIP (good : e.WellFormed) (fresh : c.edgeResult = none) (bare : ∀ x ip, ¬ Vouches headers e c x ip) :
    (clientIP headers trusted (some e) c).1 = (clientIP headers trusted none c).1 := by
  have unvouched : Unvouched headers trusted (some e) c := by
    rw [Unvouched,edgeOfFresh _ fresh]
    exact judgeBare good bare
  rw [unvouchedForwarded unvouched,unvouchedForwarded (plainUnvouched fresh)]

theorem edgeVerdict (fresh : c.edgeResult = none) :
    (edge headers trusted e c).verdict =
      if e.required = true ∧ (edgeJudge headers trusted (some e) c).ip = "" ∧ isFrameworkPath c.path = false then notViaEdge
      else .next := by
  simp only [edge,clientIP,edgeOfFresh _ fresh,Option.getD_some]

theorem bareRefused (good : e.WellFormed) (fresh : c.edgeResult = none) (bare : ∀ x ip, ¬ Vouches headers e c x ip)
    (required : e.required = true) (own : isFrameworkPath c.path = false) :
    (throughEdge headers trusted e c).verdict = notViaEdge := by
  rw [throughEdge,if_pos (good.required required),edgeVerdict fresh,if_pos ⟨required,judgeBare good bare,own⟩]

theorem vouchedPasses (good : e.WellFormed) (fresh : c.edgeResult = none) (vouched : Vouches headers e c x ip) :
    (throughEdge headers trusted e c).verdict = .next := by
  unfold throughEdge
  split
  · have filled : ip ≠ "" := by
      obtain ⟨k,v,key,inList,owned,once,read⟩ := vouched
      exact parsedNe read
    rw [edgeVerdict fresh,judgeVouched good vouched,if_neg (fun refused => filled refused.2.1)]
  · rfl

theorem vouchedSame (vouched : Vouches headers e c x ip)
    (key : headers.peekAll d.header e.keyHeader = headers.peekAll c.header e.keyHeader)
    (written : headers.peekAll d.header x.ipHeader = headers.peekAll c.header x.ipHeader) : Vouches headers e d x ip := by
  obtain ⟨k,v,keys,inList,owned,once,read⟩ := vouched
  exact ⟨k,v,key.trans keys,inList,owned,written.trans once,read⟩

end Request

section Later

structure Headers.Lawful (headers : Headers Header) : Prop where
  gone : ∀ h name, headers.peekAll (headers.del h name) name = []
  others : ∀ h name other, equalFold name other = false → headers.peekAll (headers.del h name) other = headers.peekAll h other

theorem fieldsLawful : fields.Lawful where
  gone h name := by simp [fields,List.filter_filter]
  others h name other apart := by
    have lowered : lower name ≠ lower other := by simpa [equalFold] using apart
    have kept : ∀ f : String × Bytes, (equalFold f.1 other && !equalFold f.1 name) = equalFold f.1 other := by
      intro f
      cases same : equalFold f.1 other with
      | false => rfl
      | true =>
        have like : lower f.1 = lower other := by simpa [equalFold] using same
        simp [equalFold,like,Ne.symm lowered]
    simp only [fields,List.filter_filter,kept]

variable {e : EdgeSet} {c : Context Header}

theorem keyNotForwarded (good : e.WellFormed) : equalFold e.keyHeader "X-Forwarded-For" = false := by
  have settable := good.keyHeader.2
  cases same : equalFold e.keyHeader "X-Forwarded-For" with
  | false => rfl
  | true =>
    have like : lower e.keyHeader = lower "X-Forwarded-For" := by simpa [equalFold] using same
    unfold edgeHeaderUnsettable at settable
    rw [like] at settable
    exact absurd settable (by decide)

theorem laterSame (lawful : headers.Lawful) (good : e.WellFormed) (fresh : c.edgeResult = none) :
    (clientIP headers trusted (some e) (throughEdge headers trusted e c).context).1 =
      (clientIP headers trusted (some e) c).1 := by
  unfold throughEdge
  split
  · have entries : ∀ d : Context Header, d.header = headers.del c.header e.keyHeader →
        d.entries headers = c.entries headers := by
      intro d same
      unfold Context.entries
      rw [same,lawful.others _ _ _ (keyNotForwarded good)]
    have behind : forwardedIP headers trusted (edge headers trusted e c).context = forwardedIP headers trusted c := by
      refine forwardedAgree ?_ (.inl (entries _ ?_))
      · simp only [edge,clientIP,edgeOfFresh _ fresh]
      · simp only [edge,clientIP,edgeOfFresh _ fresh]
    have judged : (edge headers trusted e c).context.edgeResult = some (edgeJudge headers trusted (some e) c) := by
      simp only [edge,clientIP,edgeOfFresh _ fresh]
    have plain : forwardedIP headers trusted {c with edgeResult := some (edgeJudge headers trusted (some e) c)} =
        forwardedIP headers trusted c := forwardedSame rfl rfl
    have seen : edgeOf headers trusted (some e) (edge headers trusted e c).context =
        (edgeJudge headers trusted (some e) c,(edge headers trusted e c).context) := by
      simp only [edgeOf,judged]
    simp only [clientIP,seen,edgeOfFresh _ fresh,behind,plain]
  · rfl

end Later

theorem edgesExclusive (headers : Headers Header) (trusted : List IPNet) {cfg : ClientConfig} {e : EdgeSet}
    (accepted : cfg.edgeSet = .ok e) :
    (∀ c : Context Header, c.edgeResult = none → (∀ x ip, ¬ Vouches headers e c x ip) →
      (clientIP headers trusted (some e) c).1 = (clientIP headers trusted none c).1 ∧
      (e.required = true → isFrameworkPath c.path = false → (throughEdge headers trusted e c).verdict = notViaEdge)) ∧
    (∀ (c : Context Header) x ip, c.edgeResult = none → Vouches headers e c x ip →
      (clientIP headers trusted (some e) c).1 = ip ∧ (throughEdge headers trusted e c).verdict = .next) ∧
    (∀ (c d : Context Header) x ip, c.edgeResult = none → d.edgeResult = none → Vouches headers e c x ip →
      headers.peekAll d.header e.keyHeader = headers.peekAll c.header e.keyHeader →
      headers.peekAll d.header x.ipHeader = headers.peekAll c.header x.ipHeader →
      (clientIP headers trusted (some e) d).1 = (clientIP headers trusted (some e) c).1) ∧
    (headers.Lawful → ∀ c : Context Header, c.edgeResult = none →
      (clientIP headers trusted (some e) (throughEdge headers trusted e c).context).1 =
        (clientIP headers trusted (some e) c).1) ∧
    (∀ k x, e.matched k = some x ↔ x ∈ e.list ∧ k ∈ x.keys) ∧
    ∀ k x y, x ∈ e.list → y ∈ e.list → k ∈ x.keys → k ∈ y.keys → x = y := by
  have good := edgeSetWellFormed accepted
  refine ⟨?_,?_,?_,?_,?_,?_⟩
  · intro c fresh bare
    exact ⟨bareIP good fresh bare,bareRefused good fresh bare⟩
  · intro c x ip fresh vouched
    exact ⟨vouchedIP good fresh vouched,vouchedPasses good fresh vouched⟩
  · intro c d x ip freshC freshD vouched key written
    rw [vouchedIP good freshC vouched,vouchedIP good freshD (vouchedSame vouched key written)]
  · intro lawful c fresh
    exact laterSame lawful good fresh
  · exact fun k x => matchedExactly good
  · exact fun k x y => keyOwned good.list.keys.once

section Here

def cdns : ClientConfig :=
  ⟨[],⟨true,"","",[⟨"cdn",["0123456789abcdef","fedcba9876543210",""],"",[]⟩,
    ⟨"front",["a key of another one"],"CloudFront-Viewer-Address",["203.0.113.0/24"]⟩]⟩⟩

def front : EdgeRule :=
  ⟨"front",[utf8 "a key of another one".toList],"CloudFront-Viewer-Address",[⟨[203,0,113,0],[255,255,255,0]⟩]⟩

def cdnsRead : EdgeSet :=
  ⟨true,"X-CDN-Key","X-CDN-Client-IP",[⟨"cdn",[utf8 "0123456789abcdef".toList,utf8 "fedcba9876543210".toList],
    "X-CDN-Client-IP",[]⟩,front]⟩

theorem cdnsAccepted : cdns.edgeSet = .ok cdnsRead := by
  have read : cdns.edgeSet.toOption = some cdnsRead := by decide
  cases made : cdns.edgeSet with
  | error why => simp [made,Except.toOption] at read
  | ok e =>
    have same : e = cdnsRead := by simpa [made,Except.toOption] using read
    rw [same]

def viewer : Context (List (String × Bytes)) := arrived "198.18.0.1:443" "/pay"
  [field "X-Forwarded-For" "6.6.6.6",field "x-cdn-key" "a key of another one",
    field "X-CDN-Client-IP" "6.6.6.6",field "cloudfront-viewer-address" "[2001:db8::7]:51234"]

def twice : Context (List (String × Bytes)) := arrived "198.18.0.1:443" "/pay"
  [field "X-CDN-Key" "0123456789abcdef",field "X-CDN-Key" "fedcba9876543210",field "X-CDN-Client-IP" "6.6.6.6"]

theorem edgesExclusiveHere :
    (clientIP fields proxies (some cdnsRead) viewer).1 = "2001:db8::7" ∧
    (clientIP fields proxies (some cdnsRead) twice).1 = (clientIP fields proxies none twice).1 ∧
    (throughEdge fields proxies cdnsRead twice).verdict = notViaEdge := by
  have main := edgesExclusive fields proxies cdnsAccepted
  have vouched : Vouches fields cdnsRead viewer front "2001:db8::7" :=
    ⟨utf8 "a key of another one".toList,utf8 "[2001:db8::7]:51234".toList,by decide,by simp [cdnsRead],
      by simp [front],by decide,by decide⟩
  have two : (fields.peekAll twice.header cdnsRead.keyHeader).length = 2 := by decide
  have bare : ∀ x ip, ¬ Vouches fields cdnsRead twice x ip := by
    rintro x ip ⟨k,v,key,rest⟩
    simp [key] at two
  have refused := main.1 twice rfl bare
  exact ⟨(main.2.1 viewer front "2001:db8::7" rfl vouched).1,refused.1,refused.2 rfl (by decide)⟩

end Here
end DevkitCommon.Hertzx.Address
