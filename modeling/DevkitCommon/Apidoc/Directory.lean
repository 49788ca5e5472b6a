import DevkitCommon.Apidoc.Split
import DevkitCommon.Lib.Words

/-! The documents of a directory as one: a domain's schemas get its namespace before their names,
then paths, components and tags are joined file by file. -/
namespace DevkitCommon.Apidoc.Directory
open DevkitCommon.Yaml

section Prefixing

mutual
def texts (f : String → String) : Node → Node
  | .scalar v => .scalar (f v)
  | .sequence items => .sequence (textsItems f items)
  | .mapping members => .mapping (textsMembers f members)
def textsItems (f : String → String) : List Node → List Node
  | [] => []
  | n::rest => texts f n::textsItems f rest
def textsMembers (f : String → String) : List (String × Node) → List (String × Node)
  | [] => []
  | (k,v)::rest => (f k,texts f v)::textsMembers f rest
end

def prefixPairs (ns : String) : List Node → List Node
  | .scalar k::v::rest => .scalar (ns ++ "." ++ k)::v::prefixPairs ns rest
  | k::v::rest => k::v::prefixPairs ns rest
  | items => items

def prefixKeys (ns : String) : Node → Node
  | .mapping members => .mapping (members.map fun m => (ns ++ "." ++ m.1,m.2))
  | .sequence items => .sequence (prefixPairs ns items)
  | .scalar v => .scalar v

def schemasIn (top : Node) : Option Node := (mapGet top "components").bind fun comps => mapGet comps "schemas"

def renamed (ns : String) (schemas : Node) : List (String × String) :=
  (entries schemas).map fun m => (schemaRefPrefix ++ m.1,schemaRefPrefix ++ ns ++ "." ++ m.1)

def renameText (renamed : List (String × String)) (v : String) : String := (renamed.lookup v).getD v

def prefixSchemas (top : Node) (ns : String) : Node := match schemasIn top with
  | none => top
  | some schemas => texts (renameText (renamed ns schemas)) (edit "components" (edit "schemas" (prefixKeys ns)) top)

end Prefixing
section Merging

def put (key : String) (v : Node) (n : Node) : Node := match mapGet n key with
  | some _ => edit key (fun _ => v) n
  | none => append key v n

def mergeOps (file path : String) : List (String × Node) → Node → Except String Node
  | [],existing => .ok existing
  | (method,op)::rest,existing => match mapGet existing method with
    | some _ =>
      let upper := String.ofList (Words.toUpper method.toList)
      .error s!"{file}: {upper} {path} is declared in another domain file too; one route belongs to one domain"
    | none => mergeOps file path rest (append method op existing)

def mergePaths (file : String) : List (String × Node) → Node → Except String Node
  | [],mp => .ok mp
  | (path,ops)::rest,mp => match mapGet mp path with
    | some existing => (mergeOps file path (entries ops) existing).bind fun existing =>
      mergePaths file rest (edit path (fun _ => existing) mp)
    | none => mergePaths file rest (append path ops mp)

def addAll : List (String × Node) → Node → Node
  | [],dst => dst
  | (name,v)::rest,dst => addAll rest (match mapGet dst name with
    | some _ => dst
    | none => append name v dst)

def mergeComponents : List (String × Node) → Node → Node
  | [],mc => mc
  | (key,val)::rest,mc => mergeComponents rest (match mapGet mc key with
    | some dst => edit key (fun _ => addAll (entries val) dst) mc
    | none => append key val mc)

def content : Node → List Node
  | .scalar _ => []
  | .sequence items => items
  | .mapping members => members.flatMap fun m => [.scalar m.1,m.2]

def tagName (t : Node) : Option String := (mapGet t "name").map Node.value

def newTags (seen : List String) : List Node → List Node
  | [] => []
  | t::rest => match tagName t with
    | some name => if name ∈ seen then newTags seen rest else t::newTags (name::seen) rest
    | none => newTags seen rest

def addItems (items : List Node) : Node → Node
  | .sequence old => .sequence (old ++ items)
  | n => n

def mergeTags (mt at' : Node) : Node := addItems (newTags ((content mt).filterMap tagName) (content at')) mt

def mergeDoc (master add : Node) (file : String) : Except String Node := do
  let master ← match mapGet add "paths" with
    | none => .ok master
    | some ap => (mergePaths file (entries ap) ((mapGet master "paths").getD (.mapping []))).map fun mp => put "paths" mp master
  let master := match mapGet add "components" with
    | none => master
    | some ac => put "components" (mergeComponents (entries ac) ((mapGet master "components").getD (.mapping []))) master
  .ok (match mapGet add "tags" with
    | none => master
    | some at' => put "tags" (mergeTags ((mapGet master "tags").getD (.sequence [])) at') master)

structure Source where
  name : String
  ns : String
  doc : Node

def Source.prefixed (f : Source) : Node := if f.ns = "" then f.doc else prefixSchemas f.doc f.ns

def mergeFiles : Option Node → List Source → Except String (Option Node)
  | master,[] => .ok master
  | none,f::rest => mergeFiles (some f.prefixed) rest
  | some master,f::rest => (mergeDoc master f.prefixed f.name).bind fun master => mergeFiles (some master) rest

def runDir (dir : String) (files : List Source) : Except String Node := (mergeFiles none files).bind fun master =>
  match master with
  | none => .error s!"{dir}: no file declares a service"
  | some top => .ok top

end Merging
section Reading

def below (top : Node) (part a b : String) : Option Node :=
  (mapGet top part).bind fun n => (mapGet n a).bind fun m => mapGet m b

def route (top : Node) (path method : String) : Option Node := below top "paths" path method

def component (top : Node) (kind name : String) : Option Node := below top "components" kind name

def componentsRef : String := "#/components/"

def place (ref : String) : Option (String × String) :=
  if componentsRef.toList.isPrefixOf ref.toList then
    let rest := ref.toList.drop componentsRef.toList.length
    match rest.dropWhile (fun c => c != '/') with
    | _::name => some (String.ofList (rest.takeWhile fun c => c != '/'),String.ofList name)
    | [] => none
  else none

def target (top : Node) (ref : String) : Option Node := (place ref).bind fun p => component top p.1 p.2

def refOf (k : String) (v : Node) : Option String := match v with
  | .scalar ref => if k = "$ref" then some ref else none
  | _ => none

mutual
def refs : Node → List String
  | .scalar _ => []
  | .sequence items => refsItems items
  | .mapping members => refsMembers members
def refsItems : List Node → List String
  | [] => []
  | n::rest => refs n ++ refsItems rest
def refsMembers : List (String × Node) → List String
  | [] => []
  | (k,v)::rest => (match refOf k v with
    | some ref => [ref]
    | none => refs v) ++ refsMembers rest
end

mutual
def grown (t : String → Node) : Node → Node
  | .scalar v => .scalar v
  | .sequence items => .sequence (grownItems t items)
  | .mapping members => .mapping (grownMembers t members)
def grownItems (t : String → Node) : List Node → List Node
  | [] => []
  | n::rest => grown t n::grownItems t rest
def grownMembers (t : String → Node) : List (String × Node) → List (String × Node)
  | [] => []
  | (k,v)::rest => (k,match refOf k v with
    | some ref => t ref
    | none => grown t v)::grownMembers t rest
end

def tree (top : Node) : Nat → Node → Node
  | 0 => grown fun _ => cut
  | depth + 1 => grown fun ref => ((target top ref).map (tree top depth)).getD cut

end Reading
section Statements

def Named (k : String) : Prop := k.toList.head? ≠ some '#'

structure Flat (n : Node) : Prop where
  mapping : isMapping n = true
  once : ((entries n).map Prod.fst).Nodup
  named : ∀ m ∈ entries n, Named m.1

def Levels (n : Node) : Prop := Flat n ∧ ∀ m ∈ entries n, Flat m.2

structure OpenAPI (top : Node) : Prop where
  flat : Flat top
  paths : ∀ n, mapGet top "paths" = some n → Levels n
  components : ∀ n, mapGet top "components" = some n → Levels n

structure Resolved (top : Node) : Prop where
  operations : ∀ p m op, route top p m = some op → ∀ ref ∈ refs op, (target top ref).isSome = true
  components : ∀ k n s, component top k n = some s → ∀ ref ∈ refs s, (target top ref).isSome = true

structure File extends Source where
  word : ∀ c ∈ ns.toList, c.isAlphanum = true ∨ c = '_' ∨ c = '.'
  api : OpenAPI doc
  resolved : Resolved doc

def Source.renames (f : Source) : List (String × String) := if f.ns = "" then [] else match schemasIn f.doc with
  | none => []
  | some schemas => renamed f.ns schemas

def Source.new (f : Source) (v : String) : String := renameText f.renames v

def Source.placed (f : Source) (kind name : String) : String :=
  if f.ns ≠ "" ∧ kind = "schemas" then f.ns ++ "." ++ name else name

def Free (a b : Node) : Prop := ∀ path method, route a path method = none ∨ route b path method = none

def Separate (files : List File) : Prop := files.Pairwise fun f g => Free f.doc g.doc

structure Present (files : List File) (top : Node) : Prop where
  once : ((operations top).map fun o => (o.1,o.2.1)).Nodup
  every : ∀ path method op, (path,method,op) ∈ operations top ↔
    ∃ f ∈ files, ∃ own, (path,method,own) ∈ operations f.doc ∧ op = texts f.new own

def exchange : Node → Node
  | .mapping members =>
    .mapping (members.filter fun m => m.1 = "parameters" || m.1 = "requestBody" || m.1 = "responses")
  | _ => .mapping []

def First (files : List File) (g : File) (kind name : String) (s : Node) : Prop := ∃ earlier later,
  files = earlier ++ g::later ∧ component g.doc kind name = some s ∧
    ∀ e ∈ earlier, ∀ name', e.placed kind name' = g.placed kind name → component e.doc kind name' = none

/- The components that the requests and the responses come to: in their own file, and in the first
one that has the name. -/
inductive Used (files : List File) : File → String → String → Prop where
  | operation {f : File} {path method ref kind name : String} {op : Node} (mem : f ∈ files)
      (own : (path,method,op) ∈ operations f.doc) (refers : ref ∈ refs (exchange op)) (is : place ref = some (kind,name)) :
      Used files f kind name
  | inside {f : File} {outer within ref kind name : String} {s : Node} (used : Used files f outer within)
      (found : component f.doc outer within = some s) (refers : ref ∈ refs s) (is : place ref = some (kind,name)) :
      Used files f kind name
  | first {f g : File} {kind name name' : String} {s : Node} (used : Used files f kind name)
      (earliest : First files g kind name' s) (same : g.placed kind name' = f.placed kind name) : Used files g kind name'

structure Kept (files : List File) (top : Node) : Prop where
  operations : ∀ f ∈ files, ∀ path method own, (path,method,own) ∈ operations f.doc → ∃ op, (path,method,op) ∈ operations top ∧
    ∀ depth, tree top depth (exchange op) = tree f.doc depth (exchange own)
  components : ∀ f kind name own, Used files f kind name → component f.doc kind name = some own →
    ∃ s, component top kind (f.placed kind name) = some s ∧ ∀ depth, tree top depth s = tree f.doc depth own

mutual
def others : Node → List String
  | .scalar v => [v]
  | .sequence items => othersItems items
  | .mapping members => othersMembers members
def othersItems : List Node → List String
  | [] => []
  | n::rest => others n ++ othersItems rest
def othersMembers : List (String × Node) → List String
  | [] => []
  | (k,v)::rest => k::(match refOf k v with
    | some _ => []
    | none => others v) ++ othersMembers rest
end

def Plain (f : Source) (n : Node) : Prop := ∀ v ∈ others n, f.renames.lookup v = none

structure Agree (files : List File) : Prop where
  trees : ∀ f g kind name name' s s', Used files f kind name → component f.doc kind name = some s →
    First files g kind name' s' → g.placed kind name' = f.placed kind name →
      ∀ depth, tree f.doc depth s = tree g.doc depth s'
  operations : ∀ f ∈ files, ∀ path method own, (path,method,own) ∈ operations f.doc → Plain f.toSource (exchange own)
  components : ∀ g kind name s, Used files g kind name → First files g kind name s → Plain g.toSource s

def Right (dir : String) (files : List File) : Prop :=
  (∃ err, runDir dir (files.map File.toSource) = .error err) ∨
    ∃ top, runDir dir (files.map File.toSource) = .ok top ∧ Present files top ∧ Resolved top ∧ Kept files top

end Statements
end DevkitCommon.Apidoc.Directory
