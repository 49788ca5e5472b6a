import DevkitCommon.Lib.MD5

/-! A configuration as a value: what its content is decoded to, the first version, the
changes after it and the hooks that are told of them. The decoders, Validate and the reading
of a document are any functions; how a hook ends is the caller's choice. -/
namespace DevkitCommon.Nacosx

abbrev Content := List UInt8

def spaces : List Content :=
  [[9],[10],[11],[12],[13],[32],[0xc2,0x85],[0xc2,0xa0],[0xe1,0x9a,0x80],[0xe2,0x80,0x80],[0xe2,0x80,0x81],
   [0xe2,0x80,0x82],[0xe2,0x80,0x83],[0xe2,0x80,0x84],[0xe2,0x80,0x85],[0xe2,0x80,0x86],[0xe2,0x80,0x87],
   [0xe2,0x80,0x88],[0xe2,0x80,0x89],[0xe2,0x80,0x8a],[0xe2,0x80,0xa8],[0xe2,0x80,0xa9],[0xe2,0x80,0xaf],
   [0xe2,0x81,0x9f],[0xe3,0x80,0x80]]

def trimmed : Nat → Content → Content
  | 0,c => c
  | n+1,c => match spaces.find? (fun w => w.isPrefixOf c) with
    | some w => trimmed n (c.drop w.length)
    | none => c

def isBlank (content : Content) : Bool := trimmed content.length content == []

def sum (content : Content) : String := if content = [] then "" else MD5.hex (MD5.sum content)

def ext (name : String) : List Char :=
  let base := name.toList.reverse.takeWhile (· != '/')
  if '.' ∈ base then '.'::(base.takeWhile (· != '.')).reverse else []

def isJSON (dataID : String) : Bool :=
  match ext dataID with
  | ['.',j,s,o,n] => ['j','J'].contains j && ['s','S','ſ'].contains s && ['o','O'].contains o && ['n','N'].contains n
  | _ => false

/- A document: maps, with their keys and scalars as text, in the order they are walked. -/
inductive Doc where
  | mapping (entries : List (String × Doc))
  | leaf (text : String)

def join (path k : String) : String := if path = "" then k else path ++ "." ++ k

mutual
def walk (path : String) : Doc → List (String × String)
  | .mapping entries => walkAll path entries
  | .leaf text => [(if path = "" then "(value)" else path,text)]
def walkAll (path : String) : List (String × Doc) → List (String × String)
  | [] => []
  | (k,e)::rest => walk (join path k) e ++ walkAll path rest
end

def put (out : List (String × String)) (entry : String × String) : List (String × String) :=
  out.filter (fun e => e.1 != entry.1) ++ [entry]

def flatten (doc : Doc) : List (String × String) := (walk "" doc).foldl put []

inductive Verdict (T : Type) where
  | valid (cur : T)
  | refused (why : String)
  | panics

/- parse takes whether the content is JSON and whether unknown keys are an error; Validate
is there when T is a Validator, and may fill in defaults. -/
structure Env (T : Type) where
  dataID : String
  parse : Bool → Bool → Content → Except String T
  validate : Option (T → Verdict T)
  document : Bool → Content → Doc

inductive Decoded (T : Type) where
  | ok (cur : T) (unknown : Option String)
  | err (why : String)
  | panics

inductive Ended where
  | returns
  | panics
  deriving DecidableEq, Repr

/- What a value has been through: a content it was handed, a hook, a call of one. -/
inductive Event (T : Type) where
  | content (c : Content)
  | registered (fn : Nat)
  | called (fn : Nat) (old : Option T) (cur : T)

inductive Party where
  | watch
  | told
  deriving DecidableEq, Repr

structure Value (T : Type) where
  cur : Option T
  mu : Option Party
  hooks : List Nat
  doc : List (String × String)
  sum : String

inductive Loaded (T : Type) where
  | ok (v : Value T)
  | missing
  | err (why : String)
  | panics

section Decode
variable {T : Type} (env : Env T)

def validated (cur : T) (unknown : Option String) : Decoded T :=
  match env.validate with
  | none => .ok cur unknown
  | some validate => match validate cur with
    | .valid cur => .ok cur unknown
    | .refused why => .err ("not valid: " ++ why)
    | .panics => .panics

def decode (content : Content) : Decoded T :=
  match env.parse (isJSON env.dataID) true content with
  | .ok cur => validated env cur none
  | .error strictErr => match env.parse (isJSON env.dataID) false content with
    | .ok cur => validated env cur (some strictErr)
    | .error err => .err err

def document (content : Content) : List (String × String) := flatten (env.document (isJSON env.dataID) content)

def Value.replaced (v : Value T) (content : Content) (cur : T) : Value T :=
  {v with cur := some cur,doc := document env content,sum := Nacosx.sum content}

def load (v : Value T) (content : Content) : Loaded T :=
  if isBlank content then .missing
  else match decode env content with
    | .err why => .err why
    | .panics => .panics
    | .ok cur _ => .ok (v.replaced env content cur)

def hook (_ : Ended) : Ended := .returns

def callHooks (ends : Nat → Ended) (old : Option T) (cur : T) : List Nat → List (Event T) × Ended
  | [] => ([],.returns)
  | fn::rest => match hook (ends fn) with
    | .returns =>
      let more := callHooks ends old cur rest
      (.called fn old cur::more.1,more.2)
    | .panics => ([.called fn old cur],.panics)

def changed (ends : Nat → Ended) (v : Value T) (content : Content) : Value T × List (Event T) × Ended :=
  if isBlank content then (v,[],.returns)
  else match decode env content with
    | .err _ => (v,[],.returns)
    | .panics => (v,[],.panics)
    | .ok cur _ => (v.replaced env content cur,callHooks ends v.cur cur v.hooks)

def Value.onChange (v : Value T) : Value T := {v with hooks := v.hooks ++ [v.hooks.length]}

end Decode
end DevkitCommon.Nacosx
