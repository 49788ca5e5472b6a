import DevkitCommon.Authx.Token
import DevkitCommon.Lib.IP
import Mathlib.Data.List.Nodup

/-! The client section of a service: the trusted proxies and the edges, read from what the
configuration says, with every mistake that stops the start, and the key by which a request
finds its edge. -/
namespace DevkitCommon.Kitexx.Client
open Authx IP Text

def trimmed (s : String) : String := String.ofList (trimSpace s)

structure EdgeConfig where
  name : String
  keys : List String
  ipHeader : String
  peerCIDRs : List String
  deriving DecidableEq, Repr

structure EdgesConfig where
  required : Bool
  keyHeader : String
  ipHeader : String
  list : List EdgeConfig
  deriving DecidableEq, Repr

structure ClientConfig where
  trustedProxies : List String
  edges : EdgesConfig
  deriving DecidableEq, Repr

structure EdgeRule where
  name : String
  keys : List Authx.Bytes
  ipHeader : String
  peers : List IPNet
  deriving DecidableEq

structure EdgeSet where
  required : Bool
  keyHeader : String
  ipHeader : String
  list : List EdgeRule
  deriving DecidableEq

def EdgeSet.enabled (e : EdgeSet) : Bool := !e.list.isEmpty

section Networks

def defaultTrustedProxies : List String :=
  ["10.0.0.0/8","172.16.0.0/12","192.168.0.0/16","127.0.0.0/8","::1/128","fc00::/7"]

/- A bare address is a network of its own; what is no IPv4 address gets 128. -/
def ranged (s : String) : String :=
  if '/' ∈ s.toList then s
  else if ((parseIP s.toList).bind to4).isSome then s ++ "/32" else s ++ "/128"

def parseCIDR (field s : String) : Except String IPNet :=
  let s := ranged (trimmed s)
  match IP.parseCIDR s.toList with
  | some n => .ok n
  | none => .error (field ++ ": " ++ Text.quote s ++ " is not a CIDR: invalid CIDR address: " ++ s)

def parseCIDRs (field : String) (list : List String) : Except String (List IPNet) := list.mapM (parseCIDR field)

def ClientConfig.trusted (c : ClientConfig) : Except String (List IPNet) :=
  parseCIDRs "client.trusted_proxies" (defaultTrustedProxies ++ c.trustedProxies)

end Networks

section Headers

def defaultEdgeKeyHeader : String := "X-CDN-Key"
def defaultEdgeIPHeader : String := "X-CDN-Client-IP"

def lower (s : String) : String := String.ofList (s.toList.map Char.toLower)

/- strings.EqualFold of names of ASCII letters, which header names are. -/
def equalFold (a b : String) : Bool := lower a == lower b

def headerChar (c : Char) : Bool := c.isAlphanum || c == '-' || c == '_' || c == '.'

def validHeaderName (s : String) : Bool := s != "" && s.toList.all headerChar

def starts (s prefix' : String) : Bool := prefix'.toList.isPrefixOf s.toList

def edgeHeaderUnsettable (h : String) : String :=
  let l := lower h
  if starts l "x-edge-" ∨ starts l "x-amz-" ∨ l = "x-real-ip" then
    "CloudFront cannot set it (reserved name); use another, such as X-CDN-Key / X-CDN-Client-IP"
  else if starts l "cf-" ∨ starts l "cloudfront-" ∨ starts l "x-forwarded-" ∨ l = "host" ∨ l = "via" then
    "a CDN or proxy writes that header itself; it cannot carry our key or IP"
  else ""

def checkHeader (h : String) : Except String Unit :=
  if validHeaderName h = false then .error ("client.edges: " ++ Text.quote h ++ " is not a header name")
  else if edgeHeaderUnsettable h ≠ "" then .error ("client.edges: header " ++ Text.quote h ++ ": " ++ edgeHeaderUnsettable h)
  else .ok ()

end Headers

section Compile

def edgeKeyMinBytes : Nat := 16

def edgeNameChar (c : Char) : Bool := decide ('a' ≤ c ∧ c ≤ 'z') || c.isDigit || c == '-'

def edgeName (name : String) : Bool := name != "" && decide (name.length ≤ 32) && name.toList.all edgeNameChar

def listed (name : String) (why : String) : String := "client.edges.list[" ++ name ++ "]: " ++ why

def edgeKeys (name : String) (allKeys : List Authx.Bytes) : List String → Except String (List Authx.Bytes)
  | [] => .ok []
  | k::rest =>
    let key := utf8 (trimSpace k)
    if key = [] then edgeKeys name allKeys rest
    else if key.length < edgeKeyMinBytes then
      .error (listed name ("a key shorter than " ++ edgeKeyMinBytes.repr ++ " bytes is not accepted"))
    else if key ∈ allKeys then .error (listed name "a key is shared with another edge or listed twice")
    else do
      let more ← edgeKeys name (allKeys ++ [key]) rest
      .ok (key::more)

def edgeHeader (ipHeader own : String) : String := if trimmed own = "" then ipHeader else trimmed own

def edgeRule (keyHeader ipHeader : String) (i : Nat) (names : List String) (allKeys : List Authx.Bytes) (e : EdgeConfig) :
    Except String EdgeRule :=
  let name := trimmed e.name
  let header := edgeHeader ipHeader e.ipHeader
  if edgeName name = false then .error (listed i.repr ("name " ++ Text.quote e.name ++ " must be 1 to 32 of [a-z0-9-]"))
  else if name ∈ names then .error ("client.edges.list: edge " ++ Text.quote name ++ " listed twice")
  else if trimmed e.ipHeader ≠ "" ∧ validHeaderName header = false then
    .error (listed name ("ip_header " ++ Text.quote e.ipHeader ++ " is not a header name"))
  else if equalFold header keyHeader = true then .error (listed name "ip_header is the key header")
  else do
    let keys ← edgeKeys name allKeys e.keys
    if keys = [] then .error (listed name "no key set (is the environment variable exported?)")
    else do
      let peers ← parseCIDRs ("client.edges.list[" ++ name ++ "].peer_cidrs") e.peerCIDRs
      .ok ⟨name,keys,header,peers⟩

def edgeRules (keyHeader ipHeader : String) :
    Nat → List String → List Authx.Bytes → List EdgeConfig → Except String (List EdgeRule)
  | _, _, _, [] => .ok []
  | i, names, allKeys, e::rest => do
    let rule ← edgeRule keyHeader ipHeader i names allKeys e
    let more ← edgeRules keyHeader ipHeader (i+1) (names ++ [rule.name]) (allKeys ++ rule.keys) rest
    .ok (rule::more)

def named (name default' : String) : String := if trimmed name = "" then default' else trimmed name

def ClientConfig.edgeSet (c : ClientConfig) : Except String EdgeSet := do
  let keyHeader := named c.edges.keyHeader defaultEdgeKeyHeader
  let ipHeader := named c.edges.ipHeader defaultEdgeIPHeader
  checkHeader keyHeader
  checkHeader ipHeader
  if equalFold keyHeader ipHeader = true then
    .error ("client.edges: key_header and ip_header are the same header " ++ Text.quote keyHeader)
  else if c.edges.required = true ∧ c.edges.list = [] then
    .error "client.edges: required is on but no edge is listed; every request would be refused"
  else do
    let list ← edgeRules keyHeader ipHeader 0 [] [] c.edges.list
    .ok ⟨c.edges.required,keyHeader,ipHeader,list⟩

def EdgeSet.matched (e : EdgeSet) (presented : Authx.Bytes) : Option EdgeRule :=
  e.list.foldl (fun found x =>
    x.keys.foldl (fun found k => if k = presented ∧ found = none then some x else found) found) none

end Compile

section Accepted
variable {keyHeader ipHeader : String} {names : List String} {allKeys : List Authx.Bytes}

structure Fresh (allKeys keys : List Authx.Bytes) : Prop where
  once : keys.Nodup
  new : ∀ k ∈ keys, k ∉ allKeys
  long : ∀ k ∈ keys, edgeKeyMinBytes ≤ k.length

theorem edgeKeysFresh {name : String} {ks : List String} {keys : List Authx.Bytes}
    (made : edgeKeys name allKeys ks = .ok keys) : Fresh allKeys keys := by
  induction ks generalizing allKeys keys with
  | nil =>
    cases Except.ok.inj made
    exact ⟨List.nodup_nil,by simp,by simp⟩
  | cons k rest ih =>
    rw [edgeKeys] at made
    split at made
    · exact ih made
    · split at made
      · contradiction
      · rename_i long
        split at made
        · contradiction
        · rename_i new
          simp only [bind,Except.bind] at made
          split at made
          · contradiction
          · rename_i more tail
            cases Except.ok.inj made
            have others := ih tail
            have apart : utf8 (trimSpace k) ∉ more := fun mem => others.new _ mem (by simp)
            refine ⟨List.nodup_cons.mpr ⟨apart,others.once⟩,?_,?_⟩
            · intro key mem
              rcases List.mem_cons.mp mem with rfl | mem
              · exact new
              · exact fun old => others.new key mem (List.mem_append_left _ old)
            · intro key mem
              rcases List.mem_cons.mp mem with rfl | mem
              · exact Nat.le_of_not_lt long
              · exact others.long key mem

structure RuleOf (keyHeader : String) (names : List String) (allKeys : List Authx.Bytes) (x : EdgeRule) : Prop where
  name : edgeName x.name = true
  single : x.name ∉ names
  header : validHeaderName x.ipHeader = true
  apart : equalFold x.ipHeader keyHeader = false
  keys : Fresh allKeys x.keys
  keyed : x.keys ≠ []

theorem edgeRuleOf {i : Nat} {e : EdgeConfig} {x : EdgeRule} (shared : validHeaderName ipHeader = true)
    (made : edgeRule keyHeader ipHeader i names allKeys e = .ok x) : RuleOf keyHeader names allKeys x := by
  unfold edgeRule at made
  simp only [bind,Except.bind] at made
  split at made
  · simp only [reduceCtorEq] at made
  rename_i name
  split at made
  · simp only [reduceCtorEq] at made
  rename_i single
  split at made
  · simp only [reduceCtorEq] at made
  rename_i header
  split at made
  · simp only [reduceCtorEq] at made
  rename_i apart
  split at made
  · simp only [reduceCtorEq] at made
  rename_i keys read
  split at made
  · simp only [reduceCtorEq] at made
  rename_i keyed
  split at made
  · simp only [reduceCtorEq] at made
  have valid : validHeaderName (edgeHeader ipHeader e.ipHeader) = true := by
    by_cases own : trimmed e.ipHeader = ""
    · rw [edgeHeader,if_pos own]
      exact shared
    · by_contra other
      exact header ⟨own,by simpa using other⟩
  generalize edgeHeader ipHeader e.ipHeader = header at made valid apart
  cases Except.ok.inj made
  exact ⟨by simpa using name,single,valid,by simpa using apart,edgeKeysFresh read,keyed⟩

structure RulesOf (keyHeader : String) (names : List String) (allKeys : List Authx.Bytes) (list : List EdgeRule) : Prop where
  name : ∀ x ∈ list, edgeName x.name = true
  header : ∀ x ∈ list, validHeaderName x.ipHeader = true
  apart : ∀ x ∈ list, equalFold x.ipHeader keyHeader = false
  keyed : ∀ x ∈ list, x.keys ≠ []
  distinct : (list.map EdgeRule.name).Nodup
  single : ∀ x ∈ list, x.name ∉ names
  keys : Fresh allKeys (list.flatMap EdgeRule.keys)

theorem RulesOf.nil : RulesOf keyHeader names allKeys [] :=
  ⟨by simp,by simp,by simp,by simp,List.nodup_nil,by simp,⟨List.nodup_nil,by simp,by simp⟩⟩

theorem RulesOf.cons {x : EdgeRule} {list : List EdgeRule} (first : RuleOf keyHeader names allKeys x)
    (rest : RulesOf keyHeader (names ++ [x.name]) (allKeys ++ x.keys) list) :
    RulesOf keyHeader names allKeys (x::list) where
  name := List.forall_mem_cons.mpr ⟨first.name,rest.name⟩
  header := List.forall_mem_cons.mpr ⟨first.header,rest.header⟩
  apart := List.forall_mem_cons.mpr ⟨first.apart,rest.apart⟩
  keyed := List.forall_mem_cons.mpr ⟨first.keyed,rest.keyed⟩
  distinct := by
    refine List.nodup_cons.mpr ⟨?_,rest.distinct⟩
    intro mem
    obtain ⟨y,inList,same⟩ := List.mem_map.mp mem
    exact rest.single y inList (by simp [same])
  single := by
    refine List.forall_mem_cons.mpr ⟨first.single,?_⟩
    intro y mem old
    exact rest.single y mem (List.mem_append_left _ old)
  keys := by
    constructor
    · refine List.nodup_append.mpr ⟨first.keys.once,rest.keys.once,?_⟩
      intro k own k' other same
      subst same
      exact rest.keys.new k other (List.mem_append_right _ own)
    · intro k mem
      rcases List.mem_append.mp mem with own | other
      · exact first.keys.new k own
      · exact fun old => rest.keys.new k other (List.mem_append_left _ old)
    · intro k mem
      rcases List.mem_append.mp mem with own | other
      · exact first.keys.long k own
      · exact rest.keys.long k other

theorem edgeRulesOf {i : Nat} {es : List EdgeConfig} {list : List EdgeRule} (shared : validHeaderName ipHeader = true)
    (made : edgeRules keyHeader ipHeader i names allKeys es = .ok list) :
    RulesOf keyHeader names allKeys list ∧ list.length = es.length := by
  induction es generalizing i names allKeys list with
  | nil =>
    cases Except.ok.inj made
    exact ⟨.nil,rfl⟩
  | cons e rest ih =>
    simp only [edgeRules,bind,Except.bind] at made
    split at made
    · simp only [reduceCtorEq] at made
    rename_i x first
    split at made
    · simp only [reduceCtorEq] at made
    rename_i more tail
    cases Except.ok.inj made
    have others := ih tail
    exact ⟨.cons (edgeRuleOf shared first) others.1,congrArg Nat.succ others.2⟩

structure EdgeSet.WellFormed (e : EdgeSet) : Prop where
  keyHeader : validHeaderName e.keyHeader = true ∧ edgeHeaderUnsettable e.keyHeader = ""
  ipHeader : validHeaderName e.ipHeader = true ∧ edgeHeaderUnsettable e.ipHeader = ""
  apart : equalFold e.keyHeader e.ipHeader = false
  required : e.required = true → e.enabled = true
  list : RulesOf e.keyHeader [] [] e.list

theorem headerChecked {h : String} (good : checkHeader h = .ok ()) :
    validHeaderName h = true ∧ edgeHeaderUnsettable h = "" := by
  unfold checkHeader at good
  split at good
  · simp only [reduceCtorEq] at good
  rename_i valid
  split at good
  · simp only [reduceCtorEq] at good
  rename_i settable
  exact ⟨by simpa using valid,not_not.mp settable⟩

theorem edgeSetWellFormed {c : ClientConfig} {e : EdgeSet} (made : c.edgeSet = .ok e) : e.WellFormed := by
  simp only [ClientConfig.edgeSet,bind,Except.bind] at made
  generalize Client.named c.edges.keyHeader defaultEdgeKeyHeader = keyHeader at made
  generalize Client.named c.edges.ipHeader defaultEdgeIPHeader = ipHeader at made
  split at made
  · simp only [reduceCtorEq] at made
  rename_i key
  split at made
  · simp only [reduceCtorEq] at made
  rename_i ip
  split at made
  · simp only [reduceCtorEq] at made
  rename_i apart
  split at made
  · simp only [reduceCtorEq] at made
  rename_i named
  split at made
  · simp only [reduceCtorEq] at made
  rename_i list read
  cases Except.ok.inj made
  have shared := headerChecked ip
  have rules := edgeRulesOf shared.1 read
  refine ⟨headerChecked key,shared,by simpa using apart,?_,rules.1⟩
  intro required
  have filled : c.edges.list ≠ [] := fun empty => named ⟨required,empty⟩
  have some' : list ≠ [] := List.ne_nil_of_length_pos (by rw [rules.2]; exact List.length_pos_of_ne_nil filled)
  simpa [EdgeSet.enabled] using some'

end Accepted
section Match
variable {presented : Authx.Bytes}

theorem keysKeep (x found : EdgeRule) (keys : List Authx.Bytes) :
    keys.foldl (fun found k => if k = presented ∧ found = none then some x else found) (some found) = some found := by
  induction keys with
  | nil => rfl
  | cons k keys ih => simpa using ih

theorem keysFind (x : EdgeRule) (keys : List Authx.Bytes) :
    keys.foldl (fun found k => if k = presented ∧ found = none then some x else found) none =
      if presented ∈ keys then some x else none := by
  induction keys with
  | nil => rfl
  | cons k keys ih =>
    rw [List.foldl_cons]
    by_cases same : k = presented
    · rw [if_pos ⟨same,rfl⟩,keysKeep,if_pos (List.mem_cons.mpr (.inl same.symm))]
    · rw [if_neg (fun both => same both.1),ih]
      simp [Ne.symm same]

theorem matchedFind (list : List EdgeRule) (found : Option EdgeRule) :
    list.foldl (fun found x =>
      x.keys.foldl (fun found k => if k = presented ∧ found = none then some x else found) found) found =
      found.or (list.find? (fun x => presented ∈ x.keys)) := by
  induction list generalizing found with
  | nil => simp
  | cons x list ih =>
    rw [List.foldl_cons,ih,List.find?_cons]
    cases found with
    | some found => rw [keysKeep]; rfl
    | none =>
      rw [keysFind]
      by_cases here : presented ∈ x.keys
      · simp [here]
      · simp [here]

theorem matchedFirst (e : EdgeSet) : e.matched presented = e.list.find? (fun x => presented ∈ x.keys) := by
  rw [EdgeSet.matched,matchedFind,Option.none_or]

theorem keyOwned {list : List EdgeRule} {x y : EdgeRule} (once : (list.flatMap EdgeRule.keys).Nodup)
    (inX : x ∈ list) (inY : y ∈ list) (ofX : presented ∈ x.keys) (ofY : presented ∈ y.keys) : x = y := by
  induction list with
  | nil => simp at inX
  | cons z list ih =>
    have parts := List.nodup_append.mp (by simpa using once)
    have apart : ∀ w ∈ list, presented ∈ w.keys → presented ∉ z.keys := fun w mem ofW ofZ =>
      parts.2.2 presented ofZ presented (List.mem_flatMap.mpr ⟨w,mem,ofW⟩) rfl
    rcases List.mem_cons.mp inX with rfl | tailX
    · rcases List.mem_cons.mp inY with rfl | tailY
      · rfl
      · exact absurd ofX (apart y tailY ofY)
    · rcases List.mem_cons.mp inY with rfl | tailY
      · exact absurd ofY (apart x tailX ofX)
      · exact ih parts.2.1 tailX tailY

theorem matchedExactly {e : EdgeSet} (good : e.WellFormed) {x : EdgeRule} :
    e.matched presented = some x ↔ x ∈ e.list ∧ presented ∈ x.keys := by
  rw [matchedFirst]
  constructor
  · intro found
    exact ⟨List.mem_of_find?_eq_some found,by simpa using List.find?_some found⟩
  · rintro ⟨inList,owned⟩
    cases found : e.list.find? (fun x => presented ∈ x.keys) with
    | none => exact absurd owned (by simpa using List.find?_eq_none.mp found x inList)
    | some y =>
      have other : presented ∈ y.keys := by simpa using List.find?_some found
      rw [keyOwned good.list.keys.once (List.mem_of_find?_eq_some found) inList other owned]

end Match
end DevkitCommon.Kitexx.Client
