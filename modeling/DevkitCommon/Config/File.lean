import DevkitCommon.Lib.Quoted

/-! A configuration file: the references to the environment are replaced in its text, and what
comes of it is parsed. -/
namespace DevkitCommon.Config
open Words Quoted

section Expansion

def isShellSpecialVar (c : Char) : Bool := "*#$@!?-0123456789".toList.contains c

def isAlphaNum (c : Char) : Bool := c == '_' || c.isAlphanum

def getShellName : Text → Text × Nat
  | [] => ([],0)
  | c::rest =>
    if c = '{' then
      let name := rest.takeWhile fun d => d != '}'
      if name.length = rest.length then ([],1) else if name = [] then ([],2) else (name,name.length + 2)
    else if isShellSpecialVar c then ([c],1)
    else
      let name := (c::rest).takeWhile isAlphaNum
      (name,name.length)

inductive Part where
  | char (c : Char)
  | ref (key : Text)
  deriving DecidableEq, Repr

/- So many characters are of the last reference still; a dollar that begins none of a name stays,
and what is no name goes. -/
def partsFrom : Nat → Text → List Part
  | _,[] => []
  | skip + 1,_::rest => partsFrom skip rest
  | 0,c::rest =>
    if c = '$' ∧ rest ≠ [] then
      let (name,width) := getShellName rest
      if name ≠ [] then .ref name::partsFrom width rest
      else if 0 < width then partsFrom width rest
      else .char c::partsFrom 0 rest
    else .char c::partsFrom 0 rest

def parts (file : Text) : List Part := partsFrom 0 file

def Part.text (mapping : Text → Text) : Part → Text
  | .char c => [c]
  | .ref key => mapping key

def write (mapping : Text → Text) (ps : List Part) : Text := ps.flatMap (Part.text mapping)

def osExpand (file : Text) (mapping : Text → Text) : Text := write mapping (parts file)

def cut (sep : Text) : Text → Option (Text × Text)
  | [] => none
  | c::rest => if sep.isPrefixOf (c::rest) then some ([],(c::rest).drop sep.length)
    else (cut sep rest).map fun p => (c::p.1,p.2)

def Expand (getenv : Text → Text) (key : Text) : Text := match cut ":-".toList key with
  | some (name,default) => if getenv name ≠ [] then getenv name else default
  | none => getenv key

end Expansion
section Loading

inductive File where
  | missing
  | unreadable (err : String)
  | data (text : Text)

def Env (getenv : Text → Text) : Text :=
  if getenv "APP_ENV".toList ≠ [] then getenv "APP_ENV".toList else "local".toList

def LoadFile {α : Type} (unmarshal : Text → Except String α) (getenv : Text → Text) (available path : String) :
    File → Except String α
  | .missing =>
    let env := Text.quote (String.ofList (Env getenv))
    .error s!"config: {path} does not exist (APP_ENV={env} selects the file; available: {available})"
  | .unreadable err => .error s!"config: {err}"
  | .data text => match unmarshal (osExpand text (Expand getenv)) with
    | .ok doc => .ok doc
    | .error err => .error s!"config: parse {path}: {err}"

end Loading
section Statements

def setenv (getenv : Text → Text) (name v : Text) : Text → Text := fun n => if n = name then v else getenv n

def nameOf (key : Text) : Text := ((cut ":-".toList key).map Prod.fst).getD key

def letter : Part → Option Char
  | .char c => some c
  | .ref _ => none

def Part.known (getenv : Text → Text) (name : Text) : Part → List Part
  | .char c => [.char c]
  | .ref key => if nameOf key = name then [.ref key] else (Expand getenv key).map .char

def known (getenv : Text → Text) (name file : Text) : List Part := (parts file).flatMap (Part.known getenv name)

structure Written (yaml : Reader) (getenv : Text → Text) (file name : Text) (ts : List (Token (List Part))) : Prop where
  plain : cut ":-".toList name = none
  defaults : ∀ key, .ref key ∈ known getenv name file → closed (Expand (setenv getenv name []) key) = true
  scanned : yaml.scan letter yaml.start none (known getenv name file) = some ts

def unreferenced (field : Leaf (List Part)) : Prop := ∀ content ∈ field.contents, ∀ p ∈ content, (letter p).isSome = true

end Statements
end DevkitCommon.Config
