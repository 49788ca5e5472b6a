import DevkitCommon.Authx.Token
import DevkitCommon.Lib.Words
import Mathlib.Data.List.Sort

/-! What the middlewares of a gateway read from its OpenAPI document, each into a table
under "METHOD /path", and what they do with a request: they look it up under its method and
its own path. The document is the list of what its path items hold, as a range over it has
them. -/
namespace DevkitCommon.Hertzx
open Redis Text Authx

inductive Verb where
  | get | post | put | delete | patch | head | options | trace
  deriving DecidableEq, Repr

def Verb.key : Verb → String
  | .get => "get" | .post => "post" | .put => "put" | .delete => "delete"
  | .patch => "patch" | .head => "head" | .options => "options" | .trace => "trace"

def Verb.text (v : Verb) : String := String.ofList (v.key.toList.map Char.toUpper)

inductive Other where
  | ref | summary | description | servers | parameters
  deriving DecidableEq, Repr

def Other.key : Other → String
  | .ref => "$ref" | .summary => "summary" | .description => "description"
  | .servers => "servers" | .parameters => "parameters"

inductive Key where
  | verb (v : Verb)
  | other (o : Other)
  | extension (name : String)
  deriving DecidableEq, Repr

def upper (s : String) : String := String.ofList (Words.toUpper s.toList)

def Key.method : Key → String
  | .verb v => v.text
  | .other o => String.ofList (o.key.toList.map Char.toUpper)
  | .extension name => "X-" ++ upper name

inductive Field (α : Type) where
  | absent
  | is (value : α)
  | unfit
  deriving DecidableEq, Repr

def Field.read {α : Type} (zero : α) : Field α → Option α
  | .absent => some zero
  | .is value => some value
  | .unfit => none

def Field.pointer {α : Type} : Field α → Option (Option α)
  | .absent => some none
  | .is value => some (some value)
  | .unfit => none

def Field.value {α : Type} (zero : α) (f : Field α) : α := (f.read zero).getD zero

structure Fields where
  summary : Field String
  tags : Field (List String)
  permission : Field String
  audit : Field Bool
  sensitive : Field Bool
  rateLimit : Field String
  maxBody : Field String
  deriving DecidableEq, Repr

/- What a path item has under a key. The structs take a mapping, or nothing at all; none is
a text or a list. -/
structure PathEntry where
  path : String
  key : Key
  value : Option Fields
  deriving DecidableEq, Repr

abbrev Document := List PathEntry

structure Operation where
  path : String
  verb : Verb
  fields : Fields
  deriving DecidableEq, Repr

def Operation.entry (op : Operation) : PathEntry := ⟨op.path,.verb op.verb,some op.fields⟩

/- yaml.Unmarshal into a map of maps of structs, by the fields that the struct has: one
value that it refuses is an error of the whole. -/
def readable {β : Type} (read : Fields → Option β) (doc : Document) : Bool :=
  doc.all (fun e => (e.value.bind read).isSome)

def PathEntry.decoded {β : Type} (read : Fields → Option β) (e : PathEntry) : Option (String × String × β) :=
  (e.value.bind read).map (fun v => (e.key.method,e.path,v))

def unmarshal {β : Type} (read : Fields → Option β) (doc : Document) : Option (List (String × String × β)) :=
  if readable read doc then some (doc.filterMap (PathEntry.decoded read)) else none

abbrev Table (α : Type) := AList (fun _ : String => α)

def fill {α : Type} (entries : List (String × α)) : Table α := entries.foldl (fun table e => table.insert e.1 e.2) ∅

def entryOf {α β : Type} (tell : β → Option α) (op : String × String × β) : Option (String × α) :=
  (tell op.2.2).map fun a => (op.1 ++ " " ++ op.2.1,a)

def tableOf {α β : Type} (read : Fields → Option β) (tell : β → Option α) (doc : Document) : Table α :=
  match unmarshal read doc with
  | none => ∅
  | some ops => fill (ops.filterMap (entryOf tell))

section Permissions

structure PermissionPoint where
  name : String
  summary : String
  tag : String
  method : String
  path : String
  deriving DecidableEq, Repr

structure Permitted where
  summary : String
  tags : List String
  permission : String

def Fields.permitted (f : Fields) : Option Permitted := do
  return ⟨← f.summary.read "",← f.tags.read [],← f.permission.read ""⟩

def pointOf : String × String × Permitted → Option PermissionPoint
  | (method,path,op) =>
    if op.permission = "" then none else some ⟨op.permission,op.summary,op.tags.headD "",method,path⟩

def PermissionPoint.before (a b : PermissionPoint) : Prop :=
  if a.tag ≠ b.tag then a.tag < b.tag else if a.name ≠ b.name then a.name < b.name else a.path < b.path ∨ a.path = b.path
instance : DecidableRel PermissionPoint.before := fun a b => by unfold PermissionPoint.before; infer_instance

def permissionPoints (doc : Document) : List PermissionPoint :=
  match unmarshal Fields.permitted doc with
  | none => []
  | some ops => (ops.filterMap pointOf).insertionSort PermissionPoint.before

def required (doc : Document) : Table String :=
  fill ((permissionPoints doc).map (fun p => (p.method ++ " " ++ p.path,p.name)))

def hasSuffix (s suffix : String) : Bool := suffix.toList.isSuffixOf s.toList

def holds (point p : String) : Bool :=
  p == point || p == "*" || hasSuffix p ".*" && p.toList.dropLast.isPrefixOf point.toList

def allowed (held : List String) (point : String) : Bool := held.any (holds point)

inductive Verdict where
  | next
  | refused (status code : Nat) (msg : String)
  deriving DecidableEq, Repr

def demand (point : Option String) (login : Bool) (points : Option (List String)) : Verdict :=
  match point with
  | none => .next
  | some point =>
    if login = false then .refused 401 1004 "未登录"
    else match points with
      | none => .refused 503 5001 "权限服务不可用"
      | some held => if allowed held point then .next else .refused 403 1007 ("没有权限：" ++ point)

def requirePermission (doc : Document) (method path : String) (login : Bool) (points : Option (List String)) : Verdict :=
  demand ((required doc).lookup (method ++ " " ++ path)) login points

end Permissions

section Audit

structure AuditOp where
  title : String
  permission : String
  sensitive : Bool
  deriving DecidableEq, Repr

structure Audited where
  summary : String
  permission : String
  audit : Option Bool
  sensitive : Bool

def Fields.audited (f : Fields) : Option Audited := do
  return ⟨← f.summary.read "",← f.permission.read "",← f.audit.pointer,← f.sensitive.read false⟩

def auditOpOf (op : Audited) : Option AuditOp :=
  if op.audit.getD (op.permission != "" && !hasSuffix op.permission ".view") then
    some ⟨op.summary,op.permission,op.sensitive⟩
  else none

def auditedOperations (doc : Document) : Table AuditOp := tableOf Fields.audited auditOpOf doc

def audit (doc : Document) (method path : String) : Option AuditOp := (auditedOperations doc).lookup (method ++ " " ++ path)

end Audit

section Guard

structure Rate where
  n : Int
  window : Int
  deriving DecidableEq, Repr

def Rate.off (r : Rate) : Bool := decide (r.n ≤ 0 ∨ r.window ≤ 0)

def lowered (s : String) : List Char := trimSpace (String.ofList (Words.toLower s.toList))
def trim (cs : List Char) : String := String.ofList (trimSpace (String.ofList cs))

def rateUnit (unit : String) : Option Int :=
  if unit = "s" ∨ unit = "sec" ∨ unit = "second" then some second
  else if unit = "m" ∨ unit = "min" ∨ unit = "minute" then some (60*second)
  else if unit = "h" ∨ unit = "hour" then some (3600*second)
  else none

def parseRate (text : String) : Except String Rate :=
  let s := lowered text
  let bad (why : String) : Except String Rate := .error ("rate " ++ Text.quote (String.ofList s) ++ ": " ++ why)
  if s = [] ∨ s = "off".toList ∨ s = ['0'] then .ok ⟨0,0⟩
  else if '/' ∈ s then
    match (parseInt 64 (trim (s.takeWhile (fun c => c != '/')))).filter (fun n => 0 < n) with
    | none => bad "the count must be a positive integer"
    | some n =>
      match rateUnit (trim ((s.dropWhile (fun c => c != '/')).drop 1)) with
      | none => bad "the unit is s, m or h"
      | some window => .ok ⟨n,window⟩
  else bad "want \"<count>/s\", \"<count>/m\", \"<count>/h\" or \"off\""

def parseSize (text : String) : Except String Int :=
  let t := lowered text
  let (mult,t) : Int × List Char := match t.getLast? with
    | some 'k' => (1024,t.dropLast)
    | some 'm' => (1024*1024,t.dropLast)
    | _ => (1,t)
  match (parseInt 64 (trim t)).filter (fun n => 0 < n ∧ n ≤ 64*1024*1024/mult) with
  | some n => .ok (n*mult)
  | none => .error ("size " ++ Text.quote text ++ ": want bytes, or a count with k or m (\"64k\", \"1m\"), at most 64m")

def rateOf (text : String) : Option Rate := if text = "" then none else (parseRate text).toOption
def bodyLimitOf (text : String) : Option Int := if text = "" then none else (parseSize text).toOption

def routeLimits (doc : Document) : Table Rate := tableOf (fun f => f.rateLimit.read "") rateOf doc
def routeMaxBodies (doc : Document) : Table Int := tableOf (fun f => f.maxBody.read "") bodyLimitOf doc

def isFrameworkPath (p : String) : Bool :=
  p == "/ping" || p == "/docs" || "/docs/".toList.isPrefixOf p.toList || "/openapi.".toList.isPrefixOf p.toList

def guardRate (doc : Document) (method path : String) : Option Rate :=
  if isFrameworkPath path then none
  else ((routeLimits doc).lookup (method ++ " " ++ path)).filter (fun r => !r.off)

structure GuardConfig where
  maxBodyBytes : Int

def GuardConfig.maxBody (cfg : GuardConfig) : Int := if 0 < cfg.maxBodyBytes then cfg.maxBodyBytes else 1024*1024

def guardBody (doc : Document) (cfg : GuardConfig) (method path : String) : Int :=
  ((routeMaxBodies doc).lookup (method ++ " " ++ path)).getD cfg.maxBody

end Guard
end DevkitCommon.Hertzx
