import DevkitCommon.Lib.Holes
import DevkitCommon.Lib.JSON
import DevkitCommon.Lib.Words
import DevkitCommon.Nacosx.Value
import Mathlib.Data.List.Sort
import Mathlib.Data.String.Basic

/-! What the log has of a configuration: its settings and its changes, the values under keys that
look like secrets hidden. A document is what the decoders made of a content; where fmt prints a
map, before is its order of the keys. -/
namespace DevkitCommon.Nacosx.Secrets
open Words

section Documents

/- A key that is no string has the text that fmt prints. -/
inductive Key where
  | str (s : String)
  | other (print : String)
  deriving DecidableEq

def Key.print : Key → String
  | .str s => s
  | .other p => p

/- A scalar that is no string stands as encoding/json writes it, if it does, and as fmt prints it.
A map whose keys are not all strings is a map[any]any. -/
inductive Val where
  | null
  | str (s : String)
  | scalar (json : Option Text) (print : Text)
  | list (items : List Val)
  | mapping (entries : List (Key × Val))

end Documents
section Printing

def plainEscape (c : Char) : Text := if c = '<' ∨ c = '>' ∨ c = '&' then [c] else JSON.escape c

def escapeAll (t : Text) : Text := t.flatMap plainEscape

def quote (t : Text) : Text := '"'::(escapeAll t ++ ['"'])

mutual
/- enc.Encode: none is an error. -/
def Val.encode : Val → Option Text
  | .null => some "null".toList
  | .str s => some (quote s.toList)
  | .scalar json _ => json
  | .list items => (encodeItems items).map fun parts => '['::([','].intercalate parts ++ [']'])
  | .mapping entries => (encodeEntries entries).map fun parts =>
    '\x7b'::([','].intercalate ((parts.insertionSort (fun p q => p.1 ≤ q.1)).map fun p => quote p.1.toList ++ ':'::p.2) ++ ['\x7d'])
def encodeItems : List Val → Option (List Text)
  | [] => some []
  | v::rest => v.encode.bind fun t => (encodeItems rest).map (t::·)
def encodeEntries : List (Key × Val) → Option (List (String × Text))
  | [] => some []
  | (.str k,v)::rest => v.encode.bind fun t => (encodeEntries rest).map ((k,t)::·)
  | (.other _,_)::_ => none
end

variable (before : Key → Key → Bool)

mutual
def Val.print : Val → Text
  | .null => "<nil>".toList
  | .str s => s.toList
  | .scalar _ print => print
  | .list items => '['::([' '].intercalate (printItems items) ++ [']'])
  | .mapping entries =>
    let parts := (printEntries entries).insertionSort (fun p q => before p.1 q.1)
    "map[".toList ++ ([' '].intercalate (parts.map fun p => p.1.print.toList ++ ':'::p.2) ++ [']'])
def printItems : List Val → List Text
  | [] => []
  | v::rest => v.print::printItems rest
def printEntries : List (Key × Val) → List (Key × Text)
  | [] => []
  | (k,v)::rest => (k,v.print)::printEntries rest
end

def Val.leaf : Val → Text
  | .null => "null".toList
  | .str s => s.toList
  | .list items => match (Val.list items).encode with
    | some t => t
    | none => (Val.list items).print before
  | v => v.print before

mutual
def Val.doc : Val → Doc
  | .mapping entries => .mapping (docEntries entries)
  | v => .leaf (String.ofList (v.leaf before))
def docEntries : List (Key × Val) → List (String × Doc)
  | [] => []
  | (k,v)::rest => (k.print,v.doc)::docEntries rest
end

def flatten (v : Val) : List (String × String) := Nacosx.flatten (v.doc before)

end Printing
section Masking

def secretWords : List String :=
  ["password","passwd","pwd","secret","token","credential","private","apikey","accesskey","signature"]

def isSecret (name : Text) : Bool :=
  let n := toLower (name.filter fun c => c != '_' && c != '-')
  let last := (name.reverse.takeWhile fun c => c != '.').reverse
  let l := toLower last
  secretWords.any (fun w => contains n w.toList) ||
    (l == "key".toList || hasSuffix l "_key".toList || hasSuffix l "-key".toList || hasSuffix last "Key".toList)

def masked : String := "***"

def quotedParts (value : Text) : List Text := (value.splitOnP fun c => c == '"').filter fun part => part != []

def listMasked (value : Text) : Bool :=
  "[".toList.isPrefixOf value && (quotedParts value).any fun part => decide (byteLength part < 40) && isSecret part

def mask (key value : String) : String :=
  if isSecret key.toList then masked else if listMasked value.toList then masked else value

end Masking
section Settings

def sorted (s : List (String × String)) : List (String × String) := s.insertionSort fun e f => e.1 ≤ f.1

def quoted (s : String) : Text := '"'::(s.toList.flatMap JSON.escape ++ ['"'])

def marshalJSON (s : List (String × String)) : Text :=
  '\x7b'::([','].intercalate ((sorted s).map fun e => quoted e.1 ++ ':'::quoted (mask e.1 e.2)) ++ ['\x7d'])

def maxSettingLines : Nat := 60

def padded (width : Nat) (k : String) : Text := k.toList ++ List.replicate (width - k.length) ' '

def logBlock (s : List (String × String)) : Text :=
  let keys := sorted s
  let width := keys.foldl (fun w e => max w (byteLength e.1.toList)) 0
  let lines := (keys.take maxSettingLines).flatMap fun e => padded width e.1 ++ ' ' :: ' ' :: ((mask e.1 e.2).toList ++ ['\n'])
  lines ++ if keys.length ≤ maxSettingLines then [] else s!"... and {keys.length - maxSettingLines} more\n".toList

structure Change where
  op : String
  key : String
  was : String
  now : String
  deriving DecidableEq

def entered (old : List (String × String)) (e : String × String) : Option Change := match old.lookup e.1 with
  | none => some ⟨"added",e.1,"",mask e.1 e.2⟩
  | some was => if was = e.2 then none else some ⟨"changed",e.1,mask e.1 was,mask e.1 e.2⟩

def left (cur : List (String × String)) (e : String × String) : Option Change := match cur.lookup e.1 with
  | none => some ⟨"removed",e.1,mask e.1 e.2,""⟩
  | some _ => none

def diff (old cur : List (String × String)) : List Change :=
  (cur.filterMap (entered old) ++ old.filterMap (left cur)).insertionSort fun c d => c.key ≤ d.key

end Settings
section Secrecy

mutual
def Val.secrets (f : String → String) (direct : Bool) : Val → Val
  | .str s => .str (if direct then f s else s)
  | .list items => .list (itemSecrets f items)
  | .mapping entries => .mapping (entrySecrets f entries)
  | .null => .null
  | .scalar json print => .scalar json print
def itemSecrets (f : String → String) : List Val → List Val
  | [] => []
  | v::rest => v.secrets f false::itemSecrets f rest
def entrySecrets (f : String → String) : List (Key × Val) → List (Key × Val)
  | [] => []
  | (k,v)::rest => (k,v.secrets f (isSecret k.print.toList))::entrySecrets f rest
end

mutual
def Val.holds (direct : Bool) : Val → Bool
  | .str _ => direct
  | .list items => itemsHold items
  | .mapping entries => entriesHold entries
  | .null | .scalar _ _ => false
def itemsHold : List Val → Bool
  | [] => false
  | v::rest => v.holds false || itemsHold rest
def entriesHold : List (Key × Val) → Bool
  | [] => false
  | (k,v)::rest => v.holds (isSecret k.print.toList) || entriesHold rest
end

def Alike (a b : Val) : Prop := a.secrets (fun _ => "") false = b.secrets (fun _ => "") false

structure Leaf where
  path : String
  direct : Bool
  value : Val

mutual
def Val.leaves (path : String) (direct : Bool) : Val → List Leaf
  | .mapping entries => leavesAll path entries
  | v => [⟨if path = "" then "(value)" else path,direct,v⟩]
def leavesAll (path : String) : List (Key × Val) → List Leaf
  | [] => []
  | (k,v)::rest => v.leaves (join path k.print) (isSecret k.print.toList) ++ leavesAll path rest
end

/- The last one that is put under a path stays. -/
def keep (out : List Leaf) (l : Leaf) : List Leaf := out.filter (fun e => e.path != l.path) ++ [l]

def Val.kept (v : Val) : List Leaf := (v.leaves "" false).foldl keep []

def Val.holdsAt (v : Val) (path : String) : Bool := v.kept.any fun l => l.path == path && l.value.holds l.direct

structure SameChanges (held : String → Bool) (cs ds : List Change) : Prop where
  others : cs.filter (fun c => !held c.key) = ds.filter (fun c => !held c.key)
  listed : ∀ c ∈ cs, ∀ d ∈ ds, c.key = d.key → c = d

variable (before : Key → Key → Bool)

structure Unseen (a b : Val) : Prop where
  json : marshalJSON (flatten before a) = marshalJSON (flatten before b)
  console : logBlock (flatten before a) = logBlock (flatten before b)
  cur : ∀ c : Val, SameChanges a.holdsAt (diff (flatten before c) (flatten before a)) (diff (flatten before c) (flatten before b))
  old : ∀ c : Val, SameChanges a.holdsAt (diff (flatten before a) (flatten before c)) (diff (flatten before b) (flatten before c))

def filler (c : Char) : String := String.ofList (List.replicate 40 c)

def Hidden (a : Val) : Prop := ∀ l ∈ a.kept, isSecret l.path.toList = false → l.value.holds l.direct = true →
  listMasked ((l.value.secrets (fun _ => filler 'z') l.direct).leaf before) = true

end Secrecy
end DevkitCommon.Nacosx.Secrets
