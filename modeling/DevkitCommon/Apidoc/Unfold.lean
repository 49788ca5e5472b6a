import DevkitCommon.Apidoc.Required

/-! The parts of a document as trees, each reference replaced by what it points at down to some
depth, and when two trees are the same but for the marks of a request. -/
namespace DevkitCommon.Apidoc
open DevkitCommon.Yaml DevkitCommon.Reach

section Trees

def reference (k : String) (v : Node) : Option String := if k = "$ref" ∧ v.value ≠ "" then some v.value else none

mutual
def references : Node → List String
  | .scalar _ => []
  | .sequence items => referencesItems items
  | .mapping members => referencesMembers members
def referencesItems : List Node → List String
  | [] => []
  | n::rest => references n ++ referencesItems rest
def referencesMembers : List (String × Node) → List String
  | [] => []
  | (k,v)::rest => (match reference k v with
    | some r => [r]
    | none => references v) ++ referencesMembers rest
end

def unescaped : List Char → List Char
  | [] => []
  | '~' :: '1' :: rest => '/' :: unescaped rest
  | '~' :: '0' :: rest => '~' :: unescaped rest
  | c::rest => c::unescaped rest

def pointer (r : String) : Option (List String) :=
  match r.toList with
  | '#' :: '/' :: rest => some ((rest.splitOn '/').map (fun part => String.ofList (unescaped part)))
  | _ => none

def under (n : Node) (name : String) : Option Node :=
  match n with
  | .scalar _ => none
  | .sequence items => ((List.range items.length).find? (fun i => i.repr == name)).bind (fun i => items[i]?)
  | .mapping members => members.lookup name

def walk (n : Node) : List String → Option Node
  | [] => some n
  | name::names => (under n name).bind (fun m => walk m names)

def resolve (top : Node) (r : String) : Option Node := (pointer r).bind (walk top)

mutual
def expand (t : String → Node) : Node → Node
  | .scalar v => .scalar v
  | .sequence items => .sequence (expandItems t items)
  | .mapping members => .mapping (expandMembers t members)
def expandItems (t : String → Node) : List Node → List Node
  | [] => []
  | n::rest => expand t n::expandItems t rest
def expandMembers (t : String → Node) : List (String × Node) → List (String × Node)
  | [] => []
  | (k,v)::rest => (k,match reference k v with
    | some r => t r
    | none => expand t v)::expandMembers t rest
end

def cut : Node := .scalar ""

def unfold (top : Node) : Nat → Node → Node
  | 0 => expand (fun _ => cut)
  | depth+1 => expand (fun r => match resolve top r with
    | some n => unfold top depth n
    | none => cut)

mutual
/- The second tree is the first, but for `required` and `nullable` added and references
wrapped to be nullable. -/
inductive Same : Node → Node → Prop where
  | scalar (v : String) : Same (.scalar v) (.scalar v)
  | sequence {xs ys} (items : SameItems xs ys) : Same (.sequence xs) (.sequence ys)
  | mapping {xs ys} (members : SameMembers xs ys) : Same (.mapping xs) (.mapping ys)
  | required {xs ys} (names : List String) (absent : xs.lookup "required" = none) (same : SameMembers xs ys) :
      Same (.mapping xs) (.mapping (ys ++ [("required",.sequence (names.map .scalar))]))
  | nullable {xs ys} (absent : xs.lookup "nullable" = none) (same : SameMembers xs ys) :
      Same (.mapping xs) (.mapping (ys ++ [("nullable",.scalar "true")]))
  | wrapped {xs ys x y} (ref : xs.lookup "$ref" = some x) (target : Same x y) (absent : xs.lookup "nullable" = none)
      (rest : SameMembers (dropFirst "$ref" xs) ys) :
      Same (.mapping xs) (.mapping (("allOf",.sequence [.mapping [("$ref",y)]])::ys ++ [("nullable",.scalar "true")]))
inductive SameItems : List Node → List Node → Prop where
  | nil : SameItems [] []
  | cons {x y xs ys} (head : Same x y) (tail : SameItems xs ys) : SameItems (x::xs) (y::ys)
inductive SameMembers : List (String × Node) → List (String × Node) → Prop where
  | nil : SameMembers [] []
  | cons {k x y xs ys} (head : Same x y) (tail : SameMembers xs ys) : SameMembers ((k,x)::xs) ((k,y)::ys)
end

def expandMember (t : String → Node) (k : String) (v : Node) : Node :=
  match reference k v with
  | some r => t r
  | none => expand t v

def referencesOf (k : String) (v : Node) : List String :=
  match reference k v with
  | some r => [r]
  | none => references v

def rewriteMember (rename : List (String × String)) (k : String) (v : Node) : Node :=
  match refTarget k v with
  | some name => pointed rename name v
  | none => rewriteRefs rename v

theorem expandMap (t : String → Node) (ms : List (String × Node)) :
    expandMembers t ms = ms.map (fun m => (m.1,expandMember t m.1 m.2)) := by
  induction ms with
  | nil => rfl
  | cons m ms ih =>
    rw [expandMembers,ih]
    rfl

theorem rewriteMap (rename : List (String × String)) (ms : List (String × Node)) :
    rewriteMembers rename ms = ms.map (fun m => (m.1,rewriteMember rename m.1 m.2)) := by
  induction ms with
  | nil => rfl
  | cons m ms ih =>
    rw [rewriteMembers,ih]
    rfl

theorem refsMap (ms : List (String × Node)) : referencesMembers ms = ms.flatMap (fun m => referencesOf m.1 m.2) := by
  induction ms with
  | nil => rfl
  | cons m ms ih =>
    rw [referencesMembers,ih]
    rfl

theorem dropMap (key : String) (g : String → Node → Node) (ms : List (String × Node)) :
    dropFirst key (ms.map (fun m => (m.1,g m.1 m.2))) = (dropFirst key ms).map (fun m => (m.1,g m.1 m.2)) := by
  induction ms with
  | nil => rfl
  | cons m ms ih =>
    obtain ⟨k,v⟩ := m
    rw [List.map_cons,dropFirst,dropFirst]
    split
    · rfl
    · rw [ih,List.map_cons]

end Trees
section References
variable {rename : List (String × String)}

theorem refBlank : refTo "" = none := by decide

theorem refToPrefix (name : String) : refTo (schemaRefPrefix ++ name) = some name := by
  unfold refTo
  rw [String.toList_append,if_pos (List.isPrefixOf_iff_prefix.mpr (List.prefix_append _ _)),List.drop_left,
    String.ofList_toList]

theorem refToForm {r name : String} (is : refTo r = some name) : r = schemaRefPrefix ++ name := by
  unfold refTo at is
  split at is
  · rename_i front
    obtain ⟨rest,made⟩ := List.isPrefixOf_iff_prefix.mp front
    rw [← made,List.drop_left] at is
    rw [← Option.some.inj is,← String.toList_inj,String.toList_append,String.toList_ofList,made]
  · exact absurd is (Option.some_ne_none _).symm

def renamed (rename : List (String × String)) (r : String) : String :=
  match (refTo r).bind (fun name => rename.lookup name) with
  | some other => schemaRefPrefix ++ other
  | none => r

theorem renamedNone (r : String) : renamed [] r = r := by
  unfold renamed
  cases refTo r <;> rfl

theorem renamedOther {r : String} (none' : refTo r = none) : renamed rename r = r := by
  unfold renamed
  rw [none']
  rfl

theorem renamedSchema (n : String) : renamed rename (schemaRefPrefix ++ n) = schemaRefPrefix ++ (rename.lookup n).getD n := by
  unfold renamed
  rw [refToPrefix,Option.bind_some]
  cases rename.lookup n <;> rfl

theorem rewriteValue (n : Node) : (rewriteRefs rename n).value = n.value := by
  cases n with
  | scalar v => rfl
  | sequence items => rfl
  | mapping members => rfl

theorem referenceKey {k : String} {v : Node} {r : String} (ref : reference k v = some r) : k = "$ref" ∧ r = v.value ∧ r ≠ "" := by
  unfold reference at ref
  split at ref
  · rename_i both
    obtain rfl := Option.some.inj ref
    exact ⟨both.1,rfl,both.2⟩
  · exact absurd ref (Option.some_ne_none _).symm

theorem targetReference (k : String) (v : Node) : refTarget k v = (reference k v).bind refTo := by
  unfold refTarget reference
  by_cases key : k = "$ref"
  · by_cases blank : v.value = ""
    · rw [if_pos key,blank,refBlank,if_neg (fun both => both.2 rfl)]
      rfl
    · rw [if_pos key,if_pos ⟨key,blank⟩]
      rfl
  · rw [if_neg key,if_neg (fun both => key both.1)]
    rfl

mutual
theorem refsReferences (n : Node) : refsIn n = (references n).filterMap refTo := by
  cases n with
  | scalar v => rfl
  | sequence items => exact itemsReferences items
  | mapping members => exact membersReferences members
theorem itemsReferences (items : List Node) : refsInItems items = (referencesItems items).filterMap refTo := by
  cases items with
  | nil => rfl
  | cons n rest => rw [refsInItems,referencesItems,List.filterMap_append,refsReferences n,itemsReferences rest]
theorem membersReferences (members : List (String × Node)) : refsInMembers members = (referencesMembers members).filterMap refTo := by
  cases members with
  | nil => rfl
  | cons m rest =>
    obtain ⟨k,v⟩ := m
    have inner := refsReferences v
    rw [refsInMembers,referencesMembers,List.filterMap_append,membersReferences rest,targetReference]
    refine congrArg (· ++ _) ?_
    cases ref : reference k v with
    | none => exact inner
    | some r =>
      obtain ⟨-,same,filled⟩ := referenceKey ref
      have plain : references v = [] := by
        cases v with
        | scalar t => rfl
        | sequence | mapping => exact absurd same filled
      rw [plain] at inner
      rw [Option.bind_some,List.filterMap_cons]
      cases refTo r with
      | none => exact inner
      | some name => rfl
end

theorem refsMem {name : String} {n : Node} : name ∈ refsIn n ↔ schemaRefPrefix ++ name ∈ references n := by
  rw [refsReferences,List.mem_filterMap]
  constructor
  · rintro ⟨r,mem,is⟩
    exact refToForm is ▸ mem
  · exact fun mem => ⟨_,mem,refToPrefix name⟩

theorem rewriteReference (k : String) (v : Node) :
    reference k (rewriteMember rename k v) = (reference k v).map (renamed rename) := by
  unfold rewriteMember
  rw [targetReference]
  cases ref : reference k v with
  | none =>
    rw [Option.bind_none,Option.map_none]
    unfold reference at ref ⊢
    rw [rewriteValue]
    exact ref
  | some r =>
    obtain ⟨key,same,filled⟩ := referenceKey ref
    rw [Option.bind_some,Option.map_some]
    unfold renamed
    cases target : refTo r with
    | none =>
      dsimp only [Option.bind_none]
      unfold reference at ref ⊢
      rw [rewriteValue]
      exact ref
    | some name =>
      unfold pointed
      simp only [Option.bind_some]
      cases rename.lookup name with
      | none => exact ref
      | some other =>
        have long : schemaRefPrefix ++ other ≠ "" := fun blank => by
          have length := congrArg String.length blank
          rw [String.length_append] at length
          exact absurd length (Nat.ne_of_gt (Nat.lt_of_lt_of_le (by decide) (Nat.le_add_right _ _)))
        exact if_pos ⟨key,long⟩

theorem rewriteRefsIn (k : String) (v : Node) (inside : references (rewriteRefs rename v) = (references v).map (renamed rename)) :
    referencesOf k (rewriteMember rename k v) = (referencesOf k v).map (renamed rename) := by
  unfold referencesOf
  rw [rewriteReference]
  cases ref : reference k v with
  | none =>
    have plain : rewriteMember rename k v = rewriteRefs rename v := by
      unfold rewriteMember
      rw [targetReference,ref]
      rfl
    rw [plain]
    exact inside
  | some r => rfl

mutual
theorem rewrittenRefs (n : Node) : references (rewriteRefs rename n) = (references n).map (renamed rename) := by
  cases n with
  | scalar v => rfl
  | sequence items => exact rewrittenItems items
  | mapping members => exact rewrittenMembers members
theorem rewrittenItems (items : List Node) :
    referencesItems (rewriteItems rename items) = (referencesItems items).map (renamed rename) := by
  cases items with
  | nil => rfl
  | cons n rest => rw [rewriteItems,referencesItems,referencesItems,List.map_append,rewrittenRefs n,rewrittenItems rest]
theorem rewrittenMembers (members : List (String × Node)) :
    referencesMembers (rewriteMembers rename members) = (referencesMembers members).map (renamed rename) := by
  cases members with
  | nil => rfl
  | cons m rest =>
    obtain ⟨k,v⟩ := m
    have head := rewriteRefsIn k v (rewrittenRefs v)
    rw [rewriteMembers,referencesMembers,referencesMembers,List.map_append,rewrittenMembers rest]
    exact congrArg (fun l => l ++ _) head
end

mutual
theorem sameRewrite {t t' : String → Node} (n : Node)
    (refs : ∀ r ∈ references n, Same (t r) (t' (renamed rename r))) :
    Same (expand t n) (expand t' (rewriteRefs rename n)) := by
  cases n with
  | scalar v => exact .scalar v
  | sequence items => exact .sequence (sameRewriteItems items refs)
  | mapping members => exact .mapping (sameRewriteMembers members refs)
theorem sameRewriteItems {t t' : String → Node} (items : List Node)
    (refs : ∀ r ∈ referencesItems items, Same (t r) (t' (renamed rename r))) :
    SameItems (expandItems t items) (expandItems t' (rewriteItems rename items)) := by
  cases items with
  | nil => exact .nil
  | cons n rest =>
    exact .cons (sameRewrite n (fun r mem => refs r (List.mem_append_left _ mem)))
      (sameRewriteItems rest (fun r mem => refs r (List.mem_append_right _ mem)))
theorem sameRewriteMembers {t t' : String → Node} (members : List (String × Node))
    (refs : ∀ r ∈ referencesMembers members, Same (t r) (t' (renamed rename r))) :
    SameMembers (expandMembers t members) (expandMembers t' (rewriteMembers rename members)) := by
  cases members with
  | nil => exact .nil
  | cons m rest =>
    obtain ⟨k,v⟩ := m
    have first : ∀ r ∈ referencesOf k v, Same (t r) (t' (renamed rename r)) :=
      fun r mem => refs r (List.mem_append_left _ mem)
    have head : Same (expandMember t k v) (expandMember t' k (rewriteMember rename k v)) := by
      unfold expandMember
      rw [rewriteReference]
      unfold referencesOf at first
      cases ref : reference k v with
      | none =>
        rw [ref] at first
        have plain : rewriteMember rename k v = rewriteRefs rename v := by
          unfold rewriteMember
          rw [targetReference,ref]
          rfl
        rw [plain]
        exact sameRewrite v first
      | some r =>
        rw [ref] at first
        exact first r (List.mem_singleton.mpr rfl)
    exact .cons head (sameRewriteMembers rest (fun r mem => refs r (List.mem_append_right _ mem)))
end

end References
section Marks
variable {t t' : String → Node}

theorem expandLookup (t : String → Node) (ms : List (String × Node)) (k : String) :
    (expandMembers t ms).lookup k = (ms.lookup k).map (expandMember t k) := by
  rw [expandMap]
  exact lookupMap ms (expandMember t) k

theorem expandAppend (t : String → Node) (xs ys : List (String × Node)) :
    expandMembers t (xs ++ ys) = expandMembers t xs ++ expandMembers t ys := by
  rw [expandMap,expandMap,expandMap,List.map_append]

theorem expandDrop (t : String → Node) (key : String) (ms : List (String × Node)) :
    expandMembers t (dropFirst key ms) = dropFirst key (expandMembers t ms) := by
  rw [expandMap,expandMap,dropMap]

theorem expandPlain (t : String → Node) {k : String} (other : k ≠ "$ref") (v : Node) : expandMember t k v = expand t v := by
  unfold expandMember reference
  rw [if_neg (fun both => other both.1)]

inductive SameEach (t t' : String → Node) : List (String × Node) → List (String × Node) → Prop where
  | nil : SameEach t t' [] []
  | cons {k v w xs ys} (head : Same (expandMember t k v) (expandMember t' k w)) (tail : SameEach t t' xs ys) :
      SameEach t t' ((k,v)::xs) ((k,w)::ys)

theorem sameMembers {xs ys : List (String × Node)} (each : SameEach t t' xs ys) :
    SameMembers (expandMembers t xs) (expandMembers t' ys) := by
  induction each with
  | nil => exact .nil
  | cons head _ ih => exact .cons head ih

theorem sameLookup {xs ys : List (String × Node)} (each : SameEach t t' xs ys) (key : String) :
    (xs.lookup key = none ∧ ys.lookup key = none) ∨
      ∃ v w, xs.lookup key = some v ∧ ys.lookup key = some w ∧ Same (expandMember t key v) (expandMember t' key w) := by
  induction each with
  | nil => exact .inl ⟨rfl,rfl⟩
  | @cons k v w xs ys head tail ih =>
    rw [List.lookup_cons,List.lookup_cons]
    by_cases same : key = k
    · subst same
      simp only [BEq.rfl]
      exact .inr ⟨v,w,rfl,rfl,head⟩
    · have other : (key == k) = false := beq_eq_false_iff_ne.mpr same
      simp only [other]
      exact ih

theorem sameDrop {xs ys : List (String × Node)} (each : SameEach t t' xs ys) (key : String) :
    SameEach t t' (dropFirst key xs) (dropFirst key ys) := by
  induction each with
  | nil => exact .nil
  | cons head tail ih =>
    rw [dropFirst,dropFirst]
    split
    · exact tail
    · exact .cons head ih

theorem sameEdit {xs ys : List (String × Node)} (each : SameEach t t' xs ys) (key : String) {f : Node → Node}
    (kept : ∀ v w, xs.lookup key = some v → ys.lookup key = some w → Same (expandMember t key v) (expandMember t' key w) →
      Same (expandMember t key v) (expandMember t' key (f w))) : SameEach t t' xs (editFirst key f ys) := by
  induction each with
  | nil => exact .nil
  | @cons k v w xs ys head tail ih =>
    rw [editFirst]
    by_cases same : k = key
    · subst same
      rw [if_pos rfl]
      have first : ∀ (v : Node) (xs : List (String × Node)), ((k,v)::xs).lookup k = some v := fun v xs => by
        rw [List.lookup_cons]
        simp only [BEq.rfl]
      exact .cons (kept v w (first v xs) (first w ys) head) tail
    · rw [if_neg same]
      have other : (key == k) = false := beq_eq_false_iff_ne.mpr (Ne.symm same)
      refine .cons head (ih (fun v' w' here here' => kept v' w' ?_ ?_))
      · simpa only [List.lookup_cons,other] using here
      · simpa only [List.lookup_cons,other] using here'

theorem rewriteEach {rename : List (String × String)} (ms : List (String × Node))
    (refs : ∀ r ∈ referencesMembers ms, Same (t r) (t' (renamed rename r))) :
    SameEach t t' ms (rewriteMembers rename ms) := by
  induction ms with
  | nil => exact .nil
  | cons m rest ih =>
    obtain ⟨k,v⟩ := m
    have one : SameMembers (expandMembers t [(k,v)]) (expandMembers t' (rewriteMembers rename [(k,v)])) :=
      sameRewriteMembers [(k,v)] (fun r mem => refs r (List.mem_append_left _ (by
        simpa only [referencesMembers,List.append_nil] using mem)))
    cases one with
    | cons head _ => exact .cons head (ih (fun r mem => refs r (List.mem_append_right _ mem)))

def RefText (p : Node) : Prop := ∀ ms, p = .mapping ms → ∀ v, ms.lookup "$ref" = some v → ∃ r, v = .scalar r

theorem nullableExpands (t : String → Node) :
    expandMembers t [("nullable",.scalar "true")] = [("nullable",.scalar "true")] := by
  rw [expandMap,List.map_singleton,expandPlain t (by decide)]
  rfl

theorem sameNullable {xs ys : List (String × Node)} (each : SameEach t t' xs ys)
    (text : ∀ v, ys.lookup "$ref" = some v → ∃ r, v = .scalar r) :
    Same (expand t (.mapping xs)) (expand t' (setNullable (.mapping ys))) := by
  rw [setNullable]
  split
  · exact .mapping (sameMembers each)
  · rename_i bare
    have absent : (expandMembers t xs).lookup "nullable" = none := by
      rw [expandLookup]
      rcases sameLookup each "nullable" with none | some
      · rw [none.1,Option.map_none]
      · obtain ⟨v,w,-,found,-⟩ := some
        rw [found] at bare
        exact absurd rfl bare
    rcases sameLookup each "$ref" with none | some
    · rw [none.2]
      simp only [expand,expandAppend,nullableExpands]
      exact .nullable absent (sameMembers each)
    · obtain ⟨v,w,found,found',target⟩ := some
      obtain ⟨r,rfl⟩ := text w found'
      rw [found']
      have dropped := sameMembers (sameDrop each "$ref")
      rw [expandDrop] at dropped
      have ref : (expandMembers t xs).lookup "$ref" = some (expandMember t "$ref" v) := by
        rw [expandLookup,found,Option.map_some]
      have made := Same.wrapped ref target absent dropped
      have shape : expand t' (.mapping (("allOf",.sequence [.mapping [("$ref",.scalar (Node.scalar r).value)]])::
          dropFirst "$ref" ys ++ [("nullable",.scalar "true")])) =
          .mapping (("allOf",.sequence [.mapping [("$ref",expandMember t' "$ref" (.scalar r))]])::
            expandMembers t' (dropFirst "$ref" ys) ++ [("nullable",.scalar "true")]) := by
        rw [expand,expandAppend,nullableExpands,expandMembers]
        rfl
      rw [shape]
      exact made

theorem textRewritten {rename : List (String × String)} {p : Node} (text : RefText p) : RefText (rewriteRefs rename p) := by
  intro ms same v found
  cases p with
  | scalar r => exact absurd same (by rw [rewriteRefs]; exact Node.noConfusion)
  | sequence items => exact absurd same (by rw [rewriteRefs]; exact Node.noConfusion)
  | mapping members =>
    rw [rewriteRefs] at same
    cases same
    rw [rewriteMap,lookupMap members (rewriteMember rename)] at found
    obtain ⟨w,old,rfl⟩ := Option.map_eq_some_iff.mp found
    obtain ⟨r,rfl⟩ := text members rfl w old
    unfold rewriteMember pointed
    split
    · split
      · exact ⟨_,rfl⟩
      · exact ⟨r,rfl⟩
    · exact ⟨r,rfl⟩

theorem samePlainNullable {v w : Node} (plain : Same (expand t v) (expand t' w)) (shape : ∀ ms, w = .mapping ms →
      ∃ xs, v = .mapping xs ∧ SameEach t t' xs ms) (text : RefText w) : Same (expand t v) (expand t' (setNullable w)) := by
  cases w with
  | scalar r => exact plain
  | sequence items => exact plain
  | mapping ms =>
    obtain ⟨xs,rfl,each⟩ := shape ms rfl
    exact sameNullable each (fun v found => text ms rfl v found)

end Marks
end DevkitCommon.Apidoc
