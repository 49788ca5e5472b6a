import DevkitCommon.Apidoc.Required

/-! The annotations of a Thrift file: what the comments above a method's line say, kept by
the method's name, and written to the operations of a document by the end of their ids. -/
namespace DevkitCommon.Apidoc
open DevkitCommon.Yaml

abbrev Text := List Char

section Lines

def lines (src : Text) : List Text := src.splitOn '\n'

def white (c : Char) : Bool :=
  let n := c.toNat
  decide (0x09 ≤ n ∧ n ≤ 0x0D) || n == 0x20 || n == 0x85 || n == 0xA0 || n == 0x1680 ||
    decide (0x2000 ≤ n ∧ n ≤ 0x200A) || n == 0x2028 || n == 0x2029 || n == 0x202F || n == 0x205F || n == 0x3000

def trimSpace (t : Text) : Text := ((t.dropWhile white).reverse.dropWhile white).reverse

def blank (c : Char) : Bool := c == '\t' || c == '\n' || c.toNat == 12 || c == '\r' || c == ' '
def word (c : Char) : Bool := c.isAlphanum || c == '_'
def numeral (c : Char) : Bool := c.isDigit

def some1 (p : Char → Bool) (t : Text) : Option (Text × Text) :=
  if t.takeWhile p = [] then none else some (t.takeWhile p,t.dropWhile p)

def after (prefix' : String) (t : Text) : Option Text :=
  if prefix'.toList.isPrefixOf t then some (t.drop prefix'.toList.length) else none

/- `^\s*[\w.]+\s+(\w+)\s*\(` -/
def methodLine (line : Text) : Option Text := do
  let (_,rest) ← some1 (fun c => word c || c == '.') (line.dropWhile blank)
  let (_,rest) ← some1 blank rest
  let (name,rest) ← some1 word rest
  if (rest.dropWhile blank).head? = some '(' then some name else none

def leftmost {V : Type} (pattern : Text → Option V) : Text → Option V
  | [] => pattern []
  | c::rest => match pattern (c::rest) with
    | some v => some v
    | none => leftmost pattern rest

def boundary (rest : Text) : Bool := match rest with
  | [] => true
  | c::_ => !word c

/- `@(audit|noaudit)\b` -/
def auditAt (t : Text) : Option Bool :=
  match after "@audit" t with
  | some rest => if boundary rest then some true else none
  | none => match after "@noaudit" t with
    | some rest => if boundary rest then some false else none
    | none => none

def auditLine : Text → Option Bool := leftmost auditAt

/- `@perm\s+([A-Za-z0-9_.:*-]+)` -/
def permAt (t : Text) : Option Text := do
  let (_,rest) ← some1 blank (← after "@perm" t)
  let (point,_) ← some1 (fun c => word c || c == '.' || c == ':' || c == '*' || c == '-') rest
  some point

def permLine : Text → Option Text := leftmost permAt

def rate (t : Text) : Option Text := do
  let (count,rest) ← some1 numeral t
  let gap := rest.takeWhile blank
  let rest ← after "/" (rest.dropWhile blank)
  let gap' := rest.takeWhile blank
  let (unit,_) ← some1 Char.isLower (rest.dropWhile blank)
  some (count ++ gap ++ '/' :: gap' ++ unit)

/- `@limit\s+(\d+\s*/\s*[a-z]+|off)` -/
def limitAt (t : Text) : Option Text := do
  let (_,rest) ← some1 blank (← after "@limit" t)
  match rate rest with
  | some limit => some limit
  | none => (after "off" rest).map (fun _ => "off".toList)

def limitLine : Text → Option Text := leftmost limitAt

/- `@maxbody\s+(\S+)` -/
def maxBodyAt (t : Text) : Option Text := do
  let (_,rest) ← some1 blank (← after "@maxbody" t)
  let (size,_) ← some1 (fun c => !blank c) rest
  some size

def maxBodyLine : Text → Option Text := leftmost maxBodyAt

def withoutSpaces (t : Text) : Text := t.filter (fun c => c != ' ')

def publicLine (t : Text) : Option Unit := if t.tails.any (fun s => "@public".toList.isPrefixOf s) then some () else none

end Lines
section Methods
variable {V : Type} (read : Text → Option V)

/- What the comments since the last line of code say, and each method they stood above;
a blank line changes nothing. -/
def scanLine (s : Option V × List (Text × V)) (line : Text) : Option V × List (Text × V) :=
  let t := trimSpace line
  if t = [] then s
  else if "//".toList.isPrefixOf t then
    match read t with
    | some v => (some v,s.2)
    | none => s
  else match s.1, methodLine line with
    | some v, some name => (none,(name,v)::s.2)
    | _, _ => (none,s.2)

def annotatedMethods (src : Text) : List (Text × V) := ((lines src).foldl (scanLine read) (none,[])).2

def taggedMethods (pattern : Text → Option Text) (src : Text) : List (Text × Text) :=
  annotatedMethods (fun t => (pattern t).map withoutSpaces) src

def PublicMethods (src : Text) : List (Text × Unit) := annotatedMethods publicLine src
def AuditMethods (src : Text) : List (Text × Bool) := annotatedMethods auditLine src
def PermMethods (src : Text) : List (Text × Text) := annotatedMethods permLine src
def LimitMethods (src : Text) : List (Text × Text) := taggedMethods limitLine src
def MaxBodyMethods (src : Text) : List (Text × Text) := taggedMethods maxBodyLine src

end Methods
section Operations

def dropPair (key : String) : List Node → List Node
  | k::v::rest => if k.value = key then rest else k::v::dropPair key rest
  | items => items

def mapDel (m : Node) (key : String) : Node :=
  match m with
  | .mapping members => .mapping (dropFirst key members)
  | .sequence items => .sequence (dropPair key items)
  | .scalar v => .scalar v

def onMapping (f : Node → Node) (op : Node) : Node :=
  match op with
  | .mapping members => f (.mapping members)
  | n => n

def eachOperation (f : Node → Node) : Node → Node := edit "paths" (each (fun _ => each (fun _ => onMapping f)))

def afterUnderscore (id : Text) : Text := (id.reverse.takeWhile (fun c => c != '_')).reverse

def methodOf (op : Node) : Text :=
  match mapGet op "operationId" with
  | some n => afterUnderscore n.value.toList
  | none => []

def secured (isPublic : Bool) : Node :=
  if isPublic then .sequence [] else .sequence [.mapping [("bearerAuth",.sequence [])]]

def secureOperation (publics : List (Text × Unit)) (op : Node) : Node :=
  append "security" (secured (publics.lookup (methodOf op)).isSome) (mapDel op "security")

def bearerScheme : Node := .mapping [("bearerAuth",.mapping [("type",.scalar "http"),("scheme",.scalar "bearer"),
  ("bearerFormat",.scalar "JWT"),
  ("description",.scalar "登录接口返回的 access_token；Authorization: Bearer <token>。标了 @public 的接口不需要。")])]

def Secure (publics : List (Text × Unit)) (top : Node) : Node :=
  match mapGet top "paths" with
  | none => top
  | some _ =>
    let top := eachOperation (secureOperation publics) top
    let top := match mapGet top "components" with
      | some _ => top
      | none => append "components" (.mapping []) top
    edit "components" (fun comp => append "securitySchemes" bearerScheme (mapDel comp "securitySchemes")) top

def extendOperation {V : Type} (field : String) (value : V → String) (values : List (Text × V)) (op : Node) : Node :=
  let cleared := mapDel op field
  match values.lookup (methodOf op) with
  | some v => mapSet cleared field (value v)
  | none => cleared

def setExtension {V : Type} (field : String) (value : V → String) (values : List (Text × V)) (top : Node) : Node :=
  if values.isEmpty then top else eachOperation (extendOperation field value values) top

def Permissions (perms : List (Text × Text)) : Node → Node := setExtension "x-permission" String.ofList perms
def Audits (audits : List (Text × Bool)) : Node → Node :=
  setExtension "x-audit" (fun v => if v then "true" else "false") audits
def Limits (limits : List (Text × Text)) : Node → Node := setExtension "x-rate-limit" String.ofList limits
def MaxBodies (sizes : List (Text × Text)) : Node → Node := setExtension "x-max-body" String.ofList sizes

def annotate (src : Text) (top : Node) : Node :=
  MaxBodies (MaxBodyMethods src) (Limits (LimitMethods src) (Audits (AuditMethods src)
    (Permissions (PermMethods src) (Secure (PublicMethods src) top))))

end Operations
end DevkitCommon.Apidoc
