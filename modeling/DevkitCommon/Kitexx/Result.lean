import DevkitCommon.Kitexx.Idempotency
import DevkitCommon.Lib.Text

/-! The results Kitex generates and what encoding/json makes of them: the types of an IDL
as Go has them, their values, the JSON a value is kept as and the value a kept copy is read
into. -/
namespace DevkitCommon.Kitexx
open Text

abbrev Bytes := ByteArray

inductive Scalar where
  | bool
  | int (bits : Nat)
  | double
  | string
  deriving DecidableEq, Repr

/- optional is a pointer to a scalar, struct a pointer to the struct of that name; lists and
sets are slices. -/
inductive GoType where
  | scalar (s : Scalar)
  | optional (s : Scalar)
  | bytes
  | slice (t : GoType)
  | map (k v : GoType)
  | struct (name : String)
  deriving DecidableEq, Repr

structure Field where
  name : String
  omitempty : Bool
  type : GoType
  deriving DecidableEq, Repr

structure Decl where
  fields : List Field
  distinct : (fields.map Field.name).Nodup

structure Idl where
  structs : String → Decl
  success : Method → Option GoType

/- nil is the nil of every pointer, slice and map; a pointer to a value is that value. A
map has its entries in the order in which they are written. -/
mutual
inductive Value where
  | nil
  | bool (b : Bool)
  | int (i : Int)
  | double (bits : UInt64)
  | string (s : Bytes)
  | binary (b : List UInt8)
  | slice (vs : Values)
  | map (es : Entries)
  | struct (vs : Values)
  deriving DecidableEq
inductive Values where
  | nil
  | cons (v : Value) (vs : Values)
  deriving DecidableEq
inductive Entries where
  | nil
  | cons (k v : Value) (es : Entries)
  deriving DecidableEq
end

/- A number is kept as the value that was written. -/
mutual
inductive Json where
  | null
  | bool (b : Bool)
  | int (i : Int)
  | double (bits : UInt64)
  | string (s : String)
  | array (js : Jsons)
  | object (ms : Members)
  deriving DecidableEq
inductive Jsons where
  | nil
  | cons (j : Json) (js : Jsons)
  deriving DecidableEq
inductive Members where
  | nil
  | cons (name : String) (j : Json) (ms : Members)
  deriving DecidableEq
end

def finite (bits : UInt64) : Bool := (bits >>> 52) &&& 0x7FF != 0x7FF
def signedZero (bits : UInt64) : Bool := bits == 0 || bits == 0x8000000000000000

/- Text that is not UTF-8, rune by rune: a byte that begins none becomes U+FFFD. -/
def runes (b : Bytes) : Nat → Nat → List Char
  | 0,_ => []
  | fuel+1,i =>
    if i < b.size then
      match b.utf8DecodeChar? i with
      | some c => c::runes b fuel (i + c.utf8Size)
      | none => '\uFFFD'::runes b fuel (i+1)
    else []

def jsonText (b : Bytes) : String :=
  if valid : b.IsValidUTF8 then String.fromUTF8 b valid else String.ofList (runes b b.size 0)

def zeroScalar : Scalar → Value
  | .bool => .bool false
  | .int _ => .int 0
  | .double => .double 0
  | .string => .string ByteArray.empty

def zero : GoType → Value
  | .scalar s => zeroScalar s
  | _ => .nil

def isEmpty : GoType → Value → Bool
  | .optional _,v => v == .nil
  | _,.nil | _,.bool false | _,.slice .nil | _,.map .nil | _,.binary [] => true
  | _,.int i => i == 0
  | _,.double bits => signedZero bits
  | _,.string s => s.size == 0
  | _,_ => false

def encodeScalar : Scalar → Value → Option Json
  | .bool,.bool b => some (.bool b)
  | .int _,.int i => some (.int i)
  | .double,.double bits => if finite bits then some (.double bits) else none
  | .string,.string s => some (.string (jsonText s))
  | _,_ => none

/- A null leaves the new value as it is. -/
def decodeScalar : Scalar → Json → Option Value
  | s,.null => some (zeroScalar s)
  | .bool,.bool b => some (.bool b)
  | .int bits,.int i => if fits bits i then some (.int i) else none
  | .double,.double bits => some (.double bits)
  | .string,.string s => some (.string s.toUTF8)
  | _,_ => none

/- The types encoding/json takes as keys of a map. -/
def keyed : GoType → Bool
  | .scalar .string | .scalar (.int _) => true
  | _ => false

def encodeKey : GoType → Value → Option String
  | .scalar .string,.string s => some (jsonText s)
  | .scalar (.int _),.int i => some (formatInt i)
  | _,_ => none

def decodeKey : GoType → String → Option Value
  | .scalar .string,s => some (.string s.toUTF8)
  | .scalar (.int bits),s => (parseInt bits s).map .int
  | _,_ => none

def Entries.has (k : Value) : Entries → Bool
  | .nil => false
  | .cons k' _ es => k == k' || es.has k

/- Of two members of one name the later stays. -/
def Entries.before (k v : Value) (es : Entries) : Entries := if es.has k then es else .cons k v es

def before (name : String) (v : Value) (found : List (String × Value)) : List (String × Value) :=
  if name ∈ found.map Prod.fst then found else (name,v)::found

def build : List Field → List (String × Value) → Values
  | [],_ => .nil
  | f::fs,found => .cons ((found.lookup f.name).getD (zero f.type)) (build fs found)

section Codec
variable (structs : String → Decl)

mutual
def encode : GoType → Value → Option Json
  | .scalar s,v => encodeScalar s v
  | .optional _,.nil | .bytes,.nil | .slice _,.nil | .struct _,.nil => some .null
  | .optional s,v => encodeScalar s v
  | .bytes,.binary b => some (.string (String.ofList (encode64 b)))
  | .slice t,.slice vs => (encodeAll t vs).map .array
  | .map k _,.nil => if keyed k then some .null else none
  | .map k v,.map es => if keyed k then (encodeEntries k v es).map .object else none
  | .struct name,.struct vs => (encodeFields (structs name).fields vs).map .object
  | _,_ => none
def encodeAll : GoType → Values → Option Jsons
  | _,.nil => some .nil
  | t,.cons v vs => do
    let j ← encode t v
    let js ← encodeAll t vs
    some (.cons j js)
def encodeEntries : GoType → GoType → Entries → Option Members
  | _,_,.nil => some .nil
  | k,t,.cons key v es => do
    let name ← encodeKey k key
    let j ← encode t v
    let ms ← encodeEntries k t es
    some (.cons name j ms)
def encodeFields : List Field → Values → Option Members
  | [],.nil => some .nil
  | f::fs,.cons v vs =>
    if f.omitempty && isEmpty f.type v then encodeFields fs vs
    else do
      let j ← encode f.type v
      let ms ← encodeFields fs vs
      some (.cons f.name j ms)
  | _,_ => none
end

mutual
def decode : GoType → Json → Option Value
  | .scalar s,j => decodeScalar s j
  | .optional _,.null | .bytes,.null | .slice _,.null | .map _ _,.null | .struct _,.null => some .nil
  | .optional s,j => decodeScalar s j
  | .bytes,.string s => (decode64 s.toList).map .binary
  | .slice t,.array js => (decodeAll t js).map .slice
  | .map k v,.object ms => if keyed k then (decodeEntries k v ms).map .map else none
  | .struct name,.object ms =>
    (decodeMembers (structs name).fields ms).map (fun found => .struct (build (structs name).fields found))
  | _,_ => none
def decodeAll : GoType → Jsons → Option Values
  | _,.nil => some .nil
  | t,.cons j js => do
    let v ← decode t j
    let vs ← decodeAll t js
    some (.cons v vs)
def decodeEntries : GoType → GoType → Members → Option Entries
  | _,_,.nil => some .nil
  | k,t,.cons name j ms => do
    let key ← decodeKey k name
    let v ← decode t j
    let es ← decodeEntries k t ms
    some (es.before key v)
def decodeMembers : List Field → Members → Option (List (String × Value))
  | _,.nil => some []
  | fields,.cons name j ms =>
    match fields.find? (fun f => f.name = name) with
    | none => decodeMembers fields ms
    | some f => do
      let v ← decode f.type j
      let found ← decodeMembers fields ms
      some (before name v found)
end

end Codec

variable (idl : Idl)

def Idl.marshal (m : Method) (resp : Value) : Option Json :=
  match idl.success m with
  | some t => encode idl.structs t resp
  | none => some .null

/- setSuccess: only a Success field that is a pointer is filled, with a new value that a
null leaves zero. -/
def Idl.setSuccess (m : Method) (data : Json) : Option Value :=
  match idl.success m with
  | some (.optional s) => decodeScalar s data
  | some (.struct name) =>
    if data = .null then some (.struct (build (idl.structs name).fields []))
    else decode idl.structs (.struct name) data
  | _ => none

def Idl.env (service : String) : Env Value Json := ⟨service,true,idl.marshal,idl.setSuccess⟩

end DevkitCommon.Kitexx
