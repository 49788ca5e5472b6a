import DevkitCommon.Lib.Yaml
import DevkitCommon.Lib.Reach

/-! The required fields of a document: schemas that requests and responses share are
split, then each schema is marked by the declaration of its struct. -/
namespace DevkitCommon.Apidoc
open DevkitCommon.Yaml DevkitCommon.Reach

section Nodes

def mapGet (m : Node) (key : String) : Option Node := (entries m).lookup key

def mapSet (m : Node) (key val : String) : Node :=
  match mapGet m key with
  | some _ => edit key (fun _ => .scalar val) m
  | none => append key (.scalar val) m

def trimSuffix (s suffix : String) : String :=
  if suffix.toList.isSuffixOf s.toList then String.ofList (s.toList.take (s.toList.length - suffix.toList.length)) else s

def afterDot (s : String) : String := String.ofList (s.toList.reverse.takeWhile (fun c => c != '.')).reverse

def containsText (s part : String) : Bool := s.toList.tails.any (fun t => part.toList.isPrefixOf t)

end Nodes
section References

def schemaRefPrefix : String := "#/components/schemas/"

def refTo (v : String) : Option String :=
  if schemaRefPrefix.toList.isPrefixOf v.toList then
    some (String.ofList (v.toList.drop schemaRefPrefix.toList.length))
  else none

def refTarget (k : String) (v : Node) : Option String := if k = "$ref" then refTo v.value else none

mutual
def refsIn : Node → List String
  | .scalar _ => []
  | .sequence items => refsInItems items
  | .mapping members => refsInMembers members
def refsInItems : List Node → List String
  | [] => []
  | n::rest => refsIn n ++ refsInItems rest
def refsInMembers : List (String × Node) → List String
  | [] => []
  | (k,v)::rest => (match refTarget k v with
    | some name => [name]
    | none => refsIn v) ++ refsInMembers rest
end

def pointed (rename : List (String × String)) (name : String) (v : Node) : Node :=
  match rename.lookup name with
  | some other => .scalar (schemaRefPrefix ++ other)
  | none => v

mutual
def rewriteRefs (rename : List (String × String)) : Node → Node
  | .scalar v => .scalar v
  | .sequence items => .sequence (rewriteItems rename items)
  | .mapping members => .mapping (rewriteMembers rename members)
def rewriteItems (rename : List (String × String)) : List Node → List Node
  | [] => []
  | n::rest => rewriteRefs rename n::rewriteItems rename rest
def rewriteMembers (rename : List (String × String)) : List (String × Node) → List (String × Node)
  | [] => []
  | (k,v)::rest => (k,match refTarget k v with
    | some name => pointed rename name v
    | none => rewriteRefs rename v)::rewriteMembers rename rest
end

def operations (top : Node) : List (String × String × Node) :=
  match mapGet top "paths" with
  | none => []
  | some paths => (entries paths).flatMap (fun path => (entries path.2).map (fun op => (path.1,op.1,op.2)))

def memberRefs (member : String) (op : Node) : List String :=
  match mapGet op member with
  | some n => refsIn n
  | none => []

def rootRefs (top : Node) (member : String) : List String :=
  (operations top).flatMap (fun op => memberRefs member op.2.2)

def graph (schemas : Node) : List (String × List String) := (entries schemas).map (fun m => (m.1,refsIn m.2))

def reachable (top schemas : Node) (member : String) : List String :=
  reach (graph schemas) [] (rootRefs top member).reverse

end References
section Splitting

theorem longerLess {members : List (String × Node)} {c : String} (taken : (members.lookup c).isSome) :
    (members.filter (fun m => decide ((c ++ "_").length ≤ m.1.length))).length <
      (members.filter (fun m => decide (c.length ≤ m.1.length))).length := by
  have longer : (c ++ "_").length = c.length + 1 := by
    rw [String.length_append]
    rfl
  rw [longer]
  induction members with
  | nil => exact absurd taken Bool.false_ne_true
  | cons m members ih =>
    have tail : (members.filter (fun m => decide (c.length + 1 ≤ m.1.length))).length ≤
        (members.filter (fun m => decide (c.length ≤ m.1.length))).length := by
      rw [← List.countP_eq_length_filter,← List.countP_eq_length_filter]
      exact List.countP_mono_left (fun x _ long => decide_eq_true (Nat.le_of_succ_le (of_decide_eq_true long)))
    obtain ⟨k,v⟩ := m
    rw [List.filter_cons,List.filter_cons]
    by_cases same : c = k
    · subst same
      have short : decide (c.length + 1 ≤ c.length) = false := decide_eq_false (Nat.not_succ_le_self _)
      have fits : decide (c.length ≤ c.length) = true := decide_eq_true (Nat.le_refl _)
      simp only [short,fits,if_true,Bool.false_eq_true,if_false,List.length_cons]
      omega
    · have other : (c == k) = false := beq_eq_false_iff_ne.mpr same
      have less := ih (by simpa only [List.lookup_cons,other] using taken)
      split
      · rename_i long
        rw [if_pos (decide_eq_true (Nat.le_of_succ_le (of_decide_eq_true long)))]
        simp only [List.length_cons]
        omega
      · split
        · simp only [List.length_cons]
          omega
        · exact less

def freeName (schemas : Node) (c : String) : String :=
  if (mapGet schemas c).isSome then freeName schemas (c ++ "_") else c
termination_by ((entries schemas).filter (fun m => decide (c.length ≤ m.1.length))).length
decreasing_by exact longerLess ‹_›

structure Split where
  top : Node
  schemas : Node
  request : List String
  original : List (String × String)

def copySchema (rename : List (String × String)) (s : Split) (name : String) : Split :=
  match mapGet s.schemas name, rename.lookup name with
  | some schema, some c =>
    { s with
      schemas := append c (rewriteRefs rename schema) s.schemas
      request := c::s.request.filter (fun n => n != name)
      original := (c,name)::s.original }
  | _, _ => s

def renames (top schemas : Node) (request : List String) : List (String × String) :=
  let response := reachable top schemas "responses"
  (request.filter (fun n => n ∈ response)).map (fun n => (n,freeName schemas (n ++ "Request")))

def splitShared (top schemas : Node) (request : List String) : Split :=
  let rename := renames top schemas request
  if rename.isEmpty then ⟨top,schemas,request,[]⟩
  else
    let top := edit "paths" (each (fun _ => each (fun _ => edit "requestBody" (rewriteRefs rename)))) top
    let schemas := (request.filter (fun n => (rename.lookup n).isNone)).foldl
      (fun schemas name => edit name (rewriteRefs rename) schemas) schemas
    let names := (rename.map Prod.fst).mergeSort (fun a b => decide (a ≤ b))
    names.foldl (copySchema rename) ⟨top,schemas,request,[]⟩

end Splitting
section Marks

structure Field where
  name : String
  kind : String
  vd : String

abbrev Structs := List (String × List Field)

def lookup (structs : Structs) (name : String) : Option (List Field) :=
  match structs.lookup name with
  | some f => some f
  | none => match structs.lookup (trimSuffix name "Body") with
    | some f => some f
    | none =>
      let bare := trimSuffix (afterDot name) "Body"
      let found := structs.filter (fun s => afterDot s.1 == bare)
      match found.find? (fun s => "common.".toList.isPrefixOf s.1.toList) with
      | some s => some s.2
      | none => match found with
        | [s] => some s.2
        | _ => none

variable (zeroPasses : String → Option Bool)

def requiredOnRequest (f : Field) : Bool :=
  if f.kind = "required" then true
  else if f.kind = "optional" then false
  else if f.vd = "" then false
  else match zeroPasses f.vd with
    | none => true
    | some passes => !passes

/- A reference cannot have siblings, so it is wrapped first. -/
def setNullable : Node → Node
  | .mapping members =>
    if (members.lookup "nullable").isSome then .mapping members
    else match members.lookup "$ref" with
      | some ref => .mapping (("allOf",.sequence [.mapping [("$ref",.scalar ref.value)]])::
          dropFirst "$ref" members ++ [("nullable",.scalar "true")])
      | none => .mapping (members ++ [("nullable",.scalar "true")])
  | n => n

def markField (request : Bool) (s : Node × List String) (f : Field) : Node × List String :=
  match mapGet s.1 f.name with
  | none => s
  | some _ =>
    if request && requiredOnRequest zeroPasses f then (s.1,s.2 ++ [f.name])
    else if request then (edit f.name setNullable s.1,s.2)
    else if f.kind ≠ "optional" then (s.1,s.2 ++ [f.name])
    else s

def markSchema (structs : Structs) (request : List String) (original : List (String × String)) (name : String)
    (schema : Node) : Node :=
  match lookup structs ((original.lookup name).getD name), mapGet schema "properties" with
  | some fields, some props =>
    if fields.isEmpty || (mapGet schema "required").isSome then schema
    else
      let marked := fields.foldl (markField zeroPasses (decide (name ∈ request))) (props,[])
      let schema := edit "properties" (fun _ => marked.1) schema
      if marked.2.isEmpty then schema else append "required" (.sequence (marked.2.map Node.scalar)) schema
  | _, _ => schema

def requestNote : String :=
  "请求字段：列在 required 里的必须有值（缺失、null、空值都回 code 1001）；其余字段可以省略，传 null 等同未传。响应字段：列在 required 里的一定会出现。"

def noted : Node → Node
  | .scalar v =>
    if containsText v requestNote then .scalar v
    else .scalar (String.ofList (v.toList.reverse.dropWhile (fun c => c = '\n')).reverse ++ "\n\n" ++ requestNote)
  | n => n

def noteInfo (info : Node) : Node :=
  match mapGet info "description" with
  | some _ => edit "description" noted info
  | none => mapSet info "description" requestNote

def Required (structs : Structs) (top : Node) : Node :=
  match mapGet top "components" with
  | none => top
  | some comps => match mapGet comps "schemas" with
    | none => top
    | some schemas =>
      let split := splitShared top schemas (reachable top schemas "requestBody")
      let schemas := each (markSchema zeroPasses structs split.request split.original) split.schemas
      edit "info" noteInfo (edit "components" (edit "schemas" (fun _ => schemas)) split.top)

end Marks
end DevkitCommon.Apidoc
