import DevkitCommon.Hertzx.Document
import DevkitCommon.Kitexx.Edges

/-! The address of a request's client: what an edge wrote, when its key vouches for it, and
otherwise the connection, read through the trusted proxies from the right. How headers are
kept is any of hertz. -/
namespace DevkitCommon.Hertzx.Address
open Authx IP Text Kitexx.Client

structure Headers (Header : Type) where
  peekAll : Header → String → List Bytes
  del : Header → String → Header

inductive EdgeOutcome where
  | none | badKey | badIP | ok | peerOutside
  deriving DecidableEq, Repr

def EdgeOutcome.label : EdgeOutcome → String
  | .none => "none" | .badKey => "bad_key" | .badIP => "bad_ip" | .ok => "ok" | .peerOutside => "peer_outside"

structure EdgeResult where
  edge : String
  ip : String
  result : EdgeOutcome
  peer : String
  deriving DecidableEq, Repr

structure Context (Header : Type) where
  remoteAddr : Option String
  path : String
  header : Header
  edgeResult : Option EdgeResult
  edgeName : String

variable {Header : Type} (headers : Headers Header) (trusted : List IPNet)

def trim (cs : List Char) : List Char := trimSpace (String.ofList cs)

def inAny (ip : List UInt8) (nets : List IPNet) : Bool := nets.any (fun n => n.contains ip)

section Forwarded

def isTrusted (ip : List UInt8) : Bool := isUnspecified ip || inAny ip trusted

def peerOf (addr : String) : List Char :=
  match splitHostPort (trimSpace addr) with
  | some (host,_) => host
  | none => trimSpace addr

def Context.entries (c : Context Header) : List (List Char) :=
  (headers.peekAll c.header "X-Forwarded-For").flatMap (fun h => (runes h).splitOn ',')

def scan : List Char → List (List Char) → List Char
  | client, [] => client
  | client, e::left =>
    match parseIP (trim e) with
    | none => client
    | some ip => if isTrusted trusted ip then scan (string ip) left else string ip

def forwardedIP (c : Context Header) : String :=
  match c.remoteAddr with
  | none => ""
  | some addr =>
    match parseIP (peerOf addr) with
    | none => String.ofList (peerOf addr)
    | some ip =>
      if isTrusted trusted ip then String.ofList (scan trusted (peerOf addr) (c.entries headers).reverse)
      else String.ofList (peerOf addr)

end Forwarded

section Edges

def parseEdgeIP (cs : List Char) : Option String :=
  let s := trim cs
  if s = [] then none
  else match (parseAddr s).or ((splitHostPort s).bind (fun p => parseAddr p.1)) with
    | none => none
    | some addr =>
      let addr := addr.unmap.withZone []
      if addr.isUnspecified then none else some (String.ofList addr.string)

def unjudged : EdgeResult := ⟨"","",.none,""⟩

def edgeRead (c : Context Header) (x : EdgeRule) : EdgeResult :=
  match headers.peekAll c.header x.ipHeader with
  | [v] =>
    match parseEdgeIP (runes v) with
    | none => ⟨x.name,"",.badIP,""⟩
    | some ip =>
      let peer := forwardedIP headers trusted c
      if x.peers ≠ [] ∧ ((parseIP peer.toList).any (fun p => inAny p x.peers)) = false then
        ⟨x.name,ip,.peerOutside,peer⟩
      else ⟨x.name,ip,.ok,""⟩
  | _ => ⟨x.name,"",.badIP,""⟩

def edgeJudge (edges : Option EdgeSet) (c : Context Header) : EdgeResult :=
  match edges with
  | none => unjudged
  | some e =>
    if e.enabled = false then unjudged
    else match headers.peekAll c.header e.keyHeader with
      | [] => unjudged
      | [k] =>
        match e.matched k with
        | none => {unjudged with result := .badKey}
        | some x => edgeRead headers trusted c x
      | _ => {unjudged with result := .badKey}

def edgeOf (edges : Option EdgeSet) (c : Context Header) : EdgeResult × Context Header :=
  match c.edgeResult with
  | some r => (r,c)
  | none => (edgeJudge headers trusted edges c,{c with edgeResult := some (edgeJudge headers trusted edges c)})

def clientIP (edges : Option EdgeSet) (c : Context Header) : String × Context Header :=
  let judged := edgeOf headers trusted edges c
  (if judged.1.ip ≠ "" then judged.1.ip else forwardedIP headers trusted judged.2,judged.2)

end Edges

section Unspoofed
variable {trusted}

def Passes (trusted : List IPNet) (e : List Char) : Prop := ∃ ip, parseIP (trim e) = some ip ∧ isTrusted trusted ip = true
instance (e : List Char) : Decidable (Passes trusted e) :=
  decidable_of_iff ((parseIP (trim e)).any (isTrusted trusted) = true) (by simp [Passes,Option.any_eq_true])

def Agree (trusted : List IPNet) (xs ys : List (List Char)) : Prop :=
  xs = ys ∨ ∃ left left' e right, ¬ Passes trusted e ∧ xs = left ++ e::right ∧ ys = left' ++ e::right

section Entry
variable {client e : List Char} {ip : List UInt8} {left : List (List Char)}

theorem scanBad (bad : parseIP (trim e) = none) : scan trusted client (e::left) = client := by simp [scan,bad]

theorem scanPast (read : parseIP (trim e) = some ip) (held : isTrusted trusted ip = true) :
    scan trusted client (e::left) = scan trusted (string ip) left := by simp [scan,read,held]

theorem scanAt (read : parseIP (trim e) = some ip) (out : isTrusted trusted ip = false) :
    scan trusted client (e::left) = string ip := by simp [scan,read,out]

end Entry

theorem scanStops {e : List Char} (stops : ¬ Passes trusted e) (client : List Char) (right left left' : List (List Char)) :
    scan trusted client (right ++ e::left) = scan trusted client (right ++ e::left') := by
  induction right generalizing client with
  | nil =>
    cases read : parseIP (trim e) with
    | none => rw [List.nil_append,List.nil_append,scanBad read,scanBad read]
    | some ip =>
      have out : isTrusted trusted ip = false := Bool.eq_false_iff.mpr (fun held => stops ⟨ip,read,held⟩)
      rw [List.nil_append,List.nil_append,scanAt read out,scanAt read out]
  | cons x right ih =>
    rw [List.cons_append,List.cons_append]
    cases read : parseIP (trim x) with
    | none => rw [scanBad read,scanBad read]
    | some ip =>
      cases held : isTrusted trusted ip with
      | false => rw [scanAt read held,scanAt read held]
      | true => rw [scanPast read held,scanPast read held,ih]

theorem scanFrom (client : List Char) (es : List (List Char)) :
    scan trusted client es = client ∨ ∃ right e left ip, es = right ++ e::left ∧ (∀ x ∈ right, Passes trusted x) ∧
      parseIP (trim e) = some ip ∧ scan trusted client es = string ip := by
  induction es generalizing client with
  | nil => exact .inl rfl
  | cons e es ih =>
    cases read : parseIP (trim e) with
    | none => exact .inl (scanBad read)
    | some ip =>
      right
      cases held : isTrusted trusted ip with
      | false => exact ⟨[],e,es,ip,rfl,by simp,read,scanAt read held⟩
      | true =>
        rw [scanPast read held]
        rcases ih (string ip) with still | ⟨right,e',left,ip',split,passed,read',same⟩
        · exact ⟨[],e,es,ip,rfl,by simp,read,still⟩
        · refine ⟨e::right,e',left,ip',by rw [split]; rfl,?_,read',same⟩
          exact List.forall_mem_cons.mpr ⟨⟨ip,read,held⟩,passed⟩

theorem scanAgree {xs ys : List (List Char)} (agree : Agree trusted xs ys) (client : List Char) :
    scan trusted client xs.reverse = scan trusted client ys.reverse := by
  rcases agree with rfl | ⟨left,left',e,right,stops,rfl,rfl⟩
  · rfl
  · have turned : ∀ left, (left ++ e::right).reverse = right.reverse ++ e::left.reverse := by simp
    rw [turned left,turned left']
    exact scanStops stops client right.reverse left.reverse left'.reverse

section Fields

def fields : Headers (List (String × Bytes)) where
  peekAll h name := (h.filter (fun f => equalFold f.1 name)).map Prod.snd
  del h name := h.filter (fun f => !equalFold f.1 name)

def field (name value : String) : String × Bytes := (name,utf8 value.toList)

def arrived {Header : Type} (addr path : String) (h : Header) : Context Header := ⟨some addr,path,h,none,""⟩

end Fields
variable {headers} {edges : Option EdgeSet}

def Unvouched (headers : Headers Header) (trusted : List IPNet) (edges : Option EdgeSet) (c : Context Header) : Prop :=
  (edgeOf headers trusted edges c).1.ip = ""

theorem plainUnvouched {c : Context Header} (fresh : c.edgeResult = none) : Unvouched headers trusted none c := by
  simp only [Unvouched,edgeOf,fresh,edgeJudge,unjudged]

theorem edgeOfKeeps (c : Context Header) :
    (edgeOf headers trusted edges c).2.remoteAddr = c.remoteAddr ∧ (edgeOf headers trusted edges c).2.header = c.header := by
  unfold edgeOf
  cases c.edgeResult with
  | none => exact ⟨rfl,rfl⟩
  | some r => exact ⟨rfl,rfl⟩

theorem forwardedSame {c d : Context Header} (peer : c.remoteAddr = d.remoteAddr) (same : c.header = d.header) :
    forwardedIP headers trusted c = forwardedIP headers trusted d := by
  unfold forwardedIP Context.entries
  rw [peer,same]

theorem unvouchedForwarded {c : Context Header} (bare : Unvouched headers trusted edges c) :
    (clientIP headers trusted edges c).1 = forwardedIP headers trusted c := by
  have kept := @edgeOfKeeps _ headers trusted edges c
  have none' : ¬ (edgeOf headers trusted edges c).1.ip ≠ "" := not_not.mpr bare
  simp only [clientIP,if_neg none']
  exact forwardedSame kept.1 kept.2

def Outside (trusted : List IPNet) (peer : List Char) : Prop := ∀ ip, parseIP peer = some ip → isTrusted trusted ip = false
instance (peer : List Char) : Decidable (Outside trusted peer) :=
  decidable_of_iff ((parseIP peer).all (fun ip => !isTrusted trusted ip) = true) (by simp [Outside,Option.all_eq_true])

theorem forwardedPeer {c : Context Header} {addr : String} (peer : c.remoteAddr = some addr)
    (outside : Outside trusted (peerOf addr)) : forwardedIP headers trusted c = String.ofList (peerOf addr) := by
  unfold forwardedIP
  simp only [peer]
  cases read : parseIP (peerOf addr) with
  | none => rfl
  | some ip => simp only [outside ip read,Bool.false_eq_true,if_false]

theorem forwardedScan {c : Context Header} {addr : String} {ip : List UInt8} (peer : c.remoteAddr = some addr)
    (read : parseIP (peerOf addr) = some ip) (held : isTrusted trusted ip = true) :
    forwardedIP headers trusted c = String.ofList (scan trusted (peerOf addr) (c.entries headers).reverse) := by
  unfold forwardedIP
  simp only [peer,read,held,if_true]

theorem forwardedAgree {c d : Context Header} (peer : c.remoteAddr = d.remoteAddr)
    (agree : Agree trusted (c.entries headers) (d.entries headers)) :
    forwardedIP headers trusted c = forwardedIP headers trusted d := by
  unfold forwardedIP
  rw [peer]
  cases d.remoteAddr with
  | none => rfl
  | some addr => simp only [scanAgree agree]

theorem forwardedFrom {c : Context Header} {addr : String} (peer : c.remoteAddr = some addr) :
    forwardedIP headers trusted c = String.ofList (peerOf addr) ∨
      ∃ left e right ip, c.entries headers = left ++ e::right ∧ (∀ x ∈ right, Passes trusted x) ∧
        parseIP (trim e) = some ip ∧ forwardedIP headers trusted c = String.ofList (string ip) := by
  by_cases outside : Outside trusted (peerOf addr)
  · exact .inl (forwardedPeer peer outside)
  · simp only [Outside,not_forall,Bool.not_eq_false] at outside
    obtain ⟨ip,read,held⟩ := outside
    rw [forwardedScan peer read held]
    rcases @scanFrom trusted (peerOf addr) (c.entries headers).reverse with
      still | ⟨right,e,left,ip',split,passed,read',same⟩
    · exact .inl (congrArg String.ofList still)
    · refine .inr ⟨left.reverse,e,right.reverse,ip',?_,?_,read',congrArg String.ofList same⟩
      · have turned := congrArg List.reverse split
        simpa using turned
      · intro x mem
        exact passed x (List.mem_reverse.mp mem)

theorem addressUnspoofed (headers : Headers Header) (trusted : List IPNet) (edges : Option EdgeSet) :
    (∀ c d : Context Header, Unvouched headers trusted edges c → Unvouched headers trusted edges d →
      c.remoteAddr = d.remoteAddr → Agree trusted (c.entries headers) (d.entries headers) →
      (clientIP headers trusted edges c).1 = (clientIP headers trusted edges d).1) ∧
    (∀ (c : Context Header) addr, Unvouched headers trusted edges c → c.remoteAddr = some addr →
      Outside trusted (peerOf addr) → (clientIP headers trusted edges c).1 = String.ofList (peerOf addr)) ∧
    ∀ (c : Context Header) addr, Unvouched headers trusted edges c → c.remoteAddr = some addr →
      (clientIP headers trusted edges c).1 = String.ofList (peerOf addr) ∨
        ∃ left e right ip, c.entries headers = left ++ e::right ∧ (∀ x ∈ right, Passes trusted x) ∧
          parseIP (trim e) = some ip ∧ (clientIP headers trusted edges c).1 = String.ofList (string ip) := by
  refine ⟨?_,?_,?_⟩
  · intro c d bareC bareD peer agree
    rw [unvouchedForwarded bareC,unvouchedForwarded bareD]
    exact forwardedAgree peer agree
  · intro c addr bare peer outside
    rw [unvouchedForwarded bare]
    exact forwardedPeer peer outside
  · intro c addr bare peer
    rw [unvouchedForwarded bare]
    exact forwardedFrom peer

def proxies : List IPNet := [⟨[10,0,0,0],[255,0,0,0]⟩]

def forwarding (addr : String) (lines : List String) : Context (List (String × Bytes)) :=
  arrived addr "/" (lines.map (field "X-Forwarded-For"))

theorem addressUnspoofedHere :
    (clientIP fields proxies none (forwarding "10.0.0.1:80" ["6.6.6.6, 198.51.100.7,10.0.0.2"])).1 =
      (clientIP fields proxies none (forwarding "10.0.0.1:80" ["junk","198.51.100.9, 198.51.100.7,10.0.0.2"])).1 ∧
    (clientIP fields proxies none (forwarding "203.0.113.9:80" ["6.6.6.6"])).1 = "203.0.113.9" := by
  have main := addressUnspoofed fields proxies none
  have agree : Agree proxies ((forwarding "10.0.0.1:80" ["6.6.6.6, 198.51.100.7,10.0.0.2"]).entries fields)
      ((forwarding "10.0.0.1:80" ["junk","198.51.100.9, 198.51.100.7,10.0.0.2"]).entries fields) :=
    .inr ⟨["6.6.6.6".toList],["junk".toList,"198.51.100.9".toList]," 198.51.100.7".toList,["10.0.0.2".toList],
      by decide,by decide,by decide⟩
  have peer : (clientIP fields proxies none (forwarding "203.0.113.9:80" ["6.6.6.6"])).1 =
      String.ofList (peerOf "203.0.113.9:80") :=
    main.2.1 (forwarding "203.0.113.9:80" ["6.6.6.6"]) "203.0.113.9:80" (plainUnvouched rfl) rfl (by decide)
  have host : String.ofList (peerOf "203.0.113.9:80") = "203.0.113.9" := by decide
  exact ⟨main.1 _ _ (plainUnvouched rfl) (plainUnvouched rfl) rfl agree,peer.trans host⟩

def cdn : ClientConfig := ⟨[],⟨true,"","",[⟨"cdn",["0123456789abcdef","fedcba9876543210"],"",[]⟩]⟩⟩

theorem unlistedBelieved :
    (cdn.trusted.toOption.bind (fun nets => cdn.edgeSet.toOption.map (fun edges =>
      ((["0.0.0.0","203.0.113.9"].map (fun s => (parseIP s.toList).any (fun ip => inAny ip nets))),
        (clientIP fields nets none (arrived "0.0.0.0:0" "/" [field "X-Forwarded-For" "6.6.6.6"])).1,
        (clientIP fields nets none (arrived "10.0.0.1:80" "/" [field "X-Forwarded-For" "6.6.6.6, 0.0.0.0"])).1,
        (clientIP fields nets none (arrived "10.0.0.1:80" "/" [field "X-Forwarded-For" "7.7.7.7, 0.0.0.0"])).1,
        (clientIP fields nets (some edges) (arrived "203.0.113.9:80" "/"
          [field "X-CDN-Key" "0123456789abcdef",field "X-CDN-Client-IP" "198.51.100.7"])).1)))) =
      some ([false,false],"6.6.6.6","6.6.6.6","7.7.7.7","198.51.100.7") := by decide

end Unspoofed
end DevkitCommon.Hertzx.Address
