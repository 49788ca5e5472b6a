import DevkitCommon.Apidoc.Annotations
import DevkitCommon.Apidoc.Split

/-! Whose annotation an operation gets: the last one above a line that reads as a method of
the name behind the last underscore of the id, which is its own method's or not. -/
namespace DevkitCommon.Apidoc
open DevkitCommon.Yaml DevkitCommon.Pairs

section Files

def codeLines : List Text → List Text → List (List Text × Text)
  | _, [] => []
  | block, line::rest =>
    let t := trimSpace line
    if t = [] then codeLines block rest
    else if "//".toList.isPrefixOf t then codeLines (block ++ [t]) rest
    else (block,line)::codeLines [] rest

def fileLines (src : Text) : List (List Text × Text) := codeLines [] (lines src)

def carried {V : Type} (read : Text → Option V) (block : List Text) : Option V :=
  block.foldl (fun said t => match read t with
    | some v => some v
    | none => said) none

def directive {V : Type} (pattern : Text → Option V) (t : Text) : Option V := pattern (trimSpace (t.drop 2))

def publicAt (t : Text) : Option Unit := (after "@public" t).bind fun rest => if boundary rest then some () else none

def publicStated : Text → Option Unit := directive publicAt
def permStated : Text → Option Text := directive permAt
def auditStated : Text → Option Bool := directive auditAt
def limitStated (t : Text) : Option Text := (directive limitAt t).map withoutSpaces
def maxBodyStated (t : Text) : Option Text := (directive maxBodyAt t).map withoutSpaces

structure Declared (src : Text) where
  service : Text
  name : Text
  block : List Text
  line : Text
  here : (block,line) ∈ fileLines src

def Reads {V : Type} (read : Text → Option V) (name : Text) (v : V) (l : List Text × Text) : Prop :=
  methodLine l.2 = some name ∧ carried read l.1 = some v

def Unread {V : Type} (read : Text → Option V) (file : List (List Text × Text)) (name : Text) : Prop :=
  ∀ l ∈ file, ∀ v, ¬ Reads read name v l

inductive LastRead {V : Type} (read : Text → Option V) (name : Text) (v : V) : List (List Text × Text) → Prop where
  | here {l after} (reads : Reads read name v l) (last : Unread read after name) : LastRead read name v (l::after)
  | later {l after} (reads : LastRead read name v after) : LastRead read name v (l::after)

/- The method's own annotation is the one that is heard under the name: the last one read
of that name, or none is read when it has none. Where the file has none of its kind at
all, what the operation carried is left. -/
def Heard {V : Type} (read : Text → Option V) (value : V → String) (src name : Text) (prior : Option Node) (own : Option V) :
    Prop :=
  ((∀ n, Unread read (fileLines src) n) ∧ prior = own.map (fun v => Node.scalar (value v))) ∨
    ((∃ n, ¬ Unread read (fileLines src) n) ∧ match own with
      | some v => LastRead read name v (fileLines src)
      | none => Unread read (fileLines src) name)

end Files
section Tables
variable {V : Type} {read : Text → Option V}

def entry (read : Text → Option V) (l : List Text × Text) : Option (Text × V) :=
  match carried read l.1, methodLine l.2 with
  | some v, some name => some (name,v)
  | _, _ => none

theorem entryReads {l : List Text × Text} {name : Text} {v : V} : entry read l = some (name,v) ↔ Reads read name v l := by
  unfold entry Reads
  constructor
  · intro made
    split at made
    · rename_i w n said named
      obtain ⟨rfl,rfl⟩ := Prod.mk.inj (Option.some.inj made)
      exact ⟨named,said⟩
    · exact absurd made (Option.some_ne_none _).symm
  · rintro ⟨named,said⟩
    rw [named,said]

theorem carriedMore (block : List Text) (t : Text) : carried read (block ++ [t]) = match read t with
    | some v => some v
    | none => carried read block := by
  unfold carried
  rw [List.foldl_append]
  rfl

theorem scanned (ls block : List Text) (out : List (Text × V)) :
    (ls.foldl (scanLine read) (carried read block,out)).2 =
      ((codeLines block ls).filterMap (entry read)).reverse ++ out := by
  induction ls generalizing block out with
  | nil => rfl
  | cons line ls ih =>
    rw [List.foldl_cons,codeLines]
    unfold scanLine
    dsimp only
    split
    · exact ih block out
    · split
      · have next := ih (block ++ [trimSpace line]) out
        rw [carriedMore] at next
        cases said : read (trimSpace line) with
        | none =>
          rw [said] at next
          exact next
        | some v =>
          rw [said] at next
          exact next
      · rw [List.filterMap_cons]
        have next := fun out => ih [] out
        unfold entry
        cases said : carried read block with
        | none => exact next out
        | some v =>
          cases named : methodLine line with
          | none => exact next out
          | some name =>
            dsimp only
            rw [List.reverse_cons,List.append_assoc]
            exact next ((name,v)::out)

theorem tableMade (src : Text) : annotatedMethods read src = ((fileLines src).filterMap (entry read)).reverse := by
  have made := @scanned V read (lines src) [] []
  rw [List.append_nil] at made
  exact made

theorem tableLookup (file : List (List Text × Text)) (name : Text) :
    (∀ v, ((file.filterMap (entry read)).reverse).lookup name = some v ↔ LastRead read name v file) ∧
      (((file.filterMap (entry read)).reverse).lookup name = none ↔ Unread read file name) := by
  induction file with
  | nil =>
    refine ⟨fun v => ⟨fun found => absurd found (Option.some_ne_none _).symm,fun last => ?_⟩,
      ⟨fun _ _ mem => absurd mem List.not_mem_nil,fun _ => rfl⟩⟩
    cases last
  | cons l file ih =>
    have split : (((l::file).filterMap (entry read)).reverse).lookup name =
        (((file.filterMap (entry read)).reverse).lookup name).or
          (match entry read l with
            | some p => if p.1 = name then some p.2 else none
            | none => none) := by
      rw [List.filterMap_cons]
      cases made : entry read l with
      | none => exact Option.or_none.symm
      | some p =>
        dsimp only
        rw [List.reverse_cons,List.lookup_append]
        refine congrArg (Option.or _) ?_
        obtain ⟨n,v⟩ := p
        rw [List.lookup_cons]
        by_cases same : n = name
        · subst same
          simp only [BEq.rfl,if_true]
        · have other : (name == n) = false := beq_eq_false_iff_ne.mpr (Ne.symm same)
          simp only [other,if_neg same,List.lookup_nil]
    rw [split]
    have head : ∀ v, (match entry read l with
        | some p => if p.1 = name then some p.2 else none
        | none => none) = some v ↔ Reads read name v l := by
      intro v
      rw [← entryReads]
      cases entry read l with
      | none => exact ⟨fun found => absurd found (Option.some_ne_none _).symm,fun found => absurd found (Option.some_ne_none _).symm⟩
      | some p =>
        obtain ⟨n,w⟩ := p
        dsimp only
        by_cases same : n = name
        · rw [if_pos same,same]
          exact ⟨fun found => by rw [Option.some.inj found],fun found => by rw [(Prod.mk.inj (Option.some.inj found)).2]⟩
        · rw [if_neg same]
          exact ⟨fun found => absurd found (Option.some_ne_none _).symm,
            fun found => absurd (Prod.mk.inj (Option.some.inj found)).1 same⟩
    generalize (match entry read l with
        | some p => if p.1 = name then some p.2 else none
        | none => none) = first at head
    cases rest : ((file.filterMap (entry read)).reverse).lookup name with
    | some w =>
      have read' := (ih.1 w).mp rest
      have heard : ¬ Unread read file name := fun out => absurd (rest.symm.trans (ih.2.mpr out)) (Option.some_ne_none _)
      refine ⟨fun v => ⟨fun same => ?_,fun last => ?_⟩,fun same => absurd same (Option.some_ne_none _),fun out => ?_⟩
      · exact .later (Option.some.inj same ▸ read')
      · cases last with
        | here _ out => exact absurd out heard
        | later last =>
          have same := rest.symm.trans ((ih.1 v).mpr last)
          exact congrArg some (Option.some.inj same)
      · exact absurd (fun l' mem => out l' (List.mem_cons_of_mem _ mem)) heard
    | none =>
      have out := ih.2.mp rest
      rw [Option.none_or]
      refine ⟨fun v => ⟨fun same => .here ((head v).mp same) out,fun last => ?_⟩,fun same => ?_,fun all => ?_⟩
      · cases last with
        | here reads _ => exact (head v).mpr reads
        | later last => exact absurd (rest.symm.trans ((ih.1 v).mpr last)) (Option.some_ne_none _).symm
      · refine List.forall_mem_cons.mpr ⟨fun v reads => ?_,out⟩
        exact absurd (same.symm.trans ((head v).mpr reads)) (Option.some_ne_none _).symm
      · cases found : first with
        | none => rfl
        | some v => exact absurd ((head v).mp found) (all l List.mem_cons_self v)

theorem tableEmpty (src : Text) : (annotatedMethods read src).isEmpty = true ↔ ∀ n, Unread read (fileLines src) n := by
  rw [tableMade]
  constructor
  · intro empty n
    refine (tableLookup (fileLines src) n).2.mp ?_
    rw [List.isEmpty_iff.mp empty]
    rfl
  · intro all
    cases same : ((fileLines src).filterMap (entry read)).reverse with
    | nil => rfl
    | cons p rest =>
      obtain ⟨n,v⟩ := p
      have out := (tableLookup (fileLines src) n).2.mpr (all n)
      rw [same,List.lookup_cons,BEq.rfl] at out
      exact absurd out (Option.some_ne_none _)

end Tables
section Passes

theorem operationsEach {top : Node} (f : Node → Node) :
    operations (eachOperation f top) = (operations top).map (fun o => (o.1,o.2.1,onMapping f o.2.2)) := by
  unfold operations eachOperation
  rw [mapGetEdit,if_pos rfl]
  cases mapGet top "paths" with
  | none => rfl
  | some paths =>
    simp only [Option.map_some,entriesEach,List.map_flatMap,List.flatMap_map,List.map_map,Function.comp_def]

theorem eachMapping (f : Node → Node) (members : List (String × Node)) :
    ∃ members', eachOperation f (.mapping members) = .mapping members' := ⟨_,rfl⟩

theorem operationsSecure (publics : List (Text × Unit)) (members : List (String × Node)) :
    operations (Secure publics (.mapping members)) = operations (eachOperation (secureOperation publics) (.mapping members)) ∧
      ∃ members', Secure publics (.mapping members) = .mapping members' := by
  unfold Secure
  cases found : mapGet (.mapping members) "paths" with
  | none =>
    refine ⟨?_,members,rfl⟩
    rw [operationsEach]
    unfold operations
    rw [found]
    rfl
  | some paths =>
    obtain ⟨inner,made⟩ := eachMapping (secureOperation publics) members
    dsimp only
    rw [made]
    have there : mapGet (.mapping inner) "paths" =
        some (each (fun _ => each (fun _ => onMapping (secureOperation publics))) paths) := by
      rw [← made]
      unfold eachOperation
      rw [mapGetEdit,if_pos rfl,found,Option.map_some]
    cases mapGet (.mapping inner) "components" with
    | some comps =>
      refine ⟨?_,_,rfl⟩
      unfold operations
      rw [mapGetEdit,if_neg (by decide)]
    | none =>
      refine ⟨?_,_,rfl⟩
      have later : mapGet (append "components" (.mapping []) (.mapping inner)) "paths" = mapGet (.mapping inner) "paths" :=
        (lookupBefore there [("components",.mapping [])]).trans there.symm
      unfold operations
      rw [mapGetEdit,if_neg (by decide)]
      dsimp only
      rw [later]

def extended {V : Type} (field : String) (value : V → String) (values : List (Text × V)) (op : Node) : Node :=
  if values.isEmpty then op else extendOperation field value values op

theorem operationsExtended {V : Type} (field : String) (value : V → String) (values : List (Text × V))
    (members : List (String × Node)) :
    operations (setExtension field value values (.mapping members)) =
        (operations (.mapping members)).map (fun o => (o.1,o.2.1,onMapping (extended field value values) o.2.2)) ∧
      ∃ members', setExtension field value values (.mapping members) = .mapping members' := by
  unfold setExtension
  split
  · rename_i empty
    refine ⟨?_,members,rfl⟩
    have same : ∀ o : String × String × Node, (o.1,o.2.1,onMapping (extended field value values) o.2.2) = o := fun o => by
      obtain ⟨a,b,n⟩ := o
      cases n with
      | mapping ms =>
        unfold onMapping extended
        dsimp only
        rw [if_pos empty]
      | scalar v => rfl
      | sequence items => rfl
    simp only [same,List.map_id']
  · rename_i full
    refine ⟨?_,_,rfl⟩
    rw [operationsEach]
    refine List.map_congr_left (fun o _ => ?_)
    obtain ⟨a,b,n⟩ := o
    cases n with
    | mapping ms =>
      unfold onMapping extended
      dsimp only
      rw [if_neg full]
    | scalar v => rfl
    | sequence items => rfl

def Plain (op : Node) : Prop := ∃ ms, op = .mapping ms ∧ (ms.map Prod.fst).Nodup

theorem dropNames (key : String) (ms : List (String × Node)) :
    (dropFirst key ms).map Prod.fst = (ms.map Prod.fst).erase key := by
  induction ms with
  | nil => rfl
  | cons m ms ih =>
    obtain ⟨k,v⟩ := m
    rw [dropFirst,List.map_cons]
    by_cases same : k = key
    · subst same
      rw [if_pos rfl,List.erase_cons_head]
    · rw [if_neg same,List.map_cons,ih,List.erase_cons_tail (by simpa using same)]

theorem dropOther {key k : String} (other : k ≠ key) (ms : List (String × Node)) :
    (dropFirst key ms).lookup k = ms.lookup k := by
  induction ms with
  | nil => rfl
  | cons m ms ih =>
    obtain ⟨n,v⟩ := m
    rw [dropFirst]
    by_cases same : n = key
    · subst same
      have apart : (k == n) = false := beq_eq_false_iff_ne.mpr other
      rw [if_pos rfl,List.lookup_cons]
      simp only [apart]
    · rw [if_neg same,List.lookup_cons,List.lookup_cons,ih]

theorem dropOwn {key : String} {ms : List (String × Node)} (once : (ms.map Prod.fst).Nodup) :
    (dropFirst key ms).lookup key = none := by
  rw [lookupAbsent,dropNames]
  exact fun mem => once.not_mem_erase mem

theorem replaced {op : Node} (plain : Plain op) (key : String) (v : Node) :
    Plain (append key v (mapDel op key)) ∧ mapGet (append key v (mapDel op key)) key = some v ∧
      ∀ k, k ≠ key → mapGet (append key v (mapDel op key)) k = mapGet op k := by
  obtain ⟨ms,rfl,once⟩ := plain
  have own : ∀ k, (dropFirst key ms ++ [(key,v)]).lookup k = if k = key then some v else ms.lookup k := by
    intro k
    by_cases same : k = key
    · subst same
      rw [if_pos rfl,lookupAfter (dropOwn once),List.lookup_cons,BEq.rfl]
    · have apart : (k == key) = false := beq_eq_false_iff_ne.mpr same
      rw [if_neg same,List.lookup_append,dropOther same,List.lookup_cons]
      simp only [apart,List.lookup_nil,Option.or_none]
  refine ⟨⟨dropFirst key ms ++ [(key,v)],rfl,?_⟩,(own key).trans (if_pos rfl),fun k other => (own k).trans (if_neg other)⟩
  rw [List.map_append,dropNames]
  refine List.nodup_append.mpr ⟨once.erase key,List.nodup_singleton _,fun a mem b single => ?_⟩
  rw [List.mem_singleton.mp single]
  exact fun same => once.not_mem_erase (same ▸ mem)

theorem cleared {op : Node} (plain : Plain op) (key : String) :
    Plain (mapDel op key) ∧ mapGet (mapDel op key) key = none ∧ ∀ k, k ≠ key → mapGet (mapDel op key) k = mapGet op k := by
  obtain ⟨ms,rfl,once⟩ := plain
  refine ⟨⟨dropFirst key ms,rfl,?_⟩,dropOwn once,fun k other => dropOther other ms⟩
  rw [dropNames]
  exact once.erase key

theorem secureOwn {op : Node} (plain : Plain op) (publics : List (Text × Unit)) :
    Plain (secureOperation publics op) ∧
      mapGet (secureOperation publics op) "security" = some (secured (publics.lookup (methodOf op)).isSome) ∧
      ∀ k, k ≠ "security" → mapGet (secureOperation publics op) k = mapGet op k := replaced plain _ _

theorem extendOwn {V : Type} {op : Node} (plain : Plain op) (field : String) (value : V → String) (values : List (Text × V)) :
    Plain (extended field value values op) ∧
      mapGet (extended field value values op) field = (if values.isEmpty then mapGet op field
        else (values.lookup (methodOf op)).map (fun v => Node.scalar (value v))) ∧
      ∀ k, k ≠ field → mapGet (extended field value values op) k = mapGet op k := by
  unfold extended
  split
  · exact ⟨plain,rfl,fun _ _ => rfl⟩
  · unfold extendOperation
    dsimp only
    have gone := cleared plain field
    cases values.lookup (methodOf op) with
    | none => exact gone
    | some v =>
      dsimp only
      unfold mapSet
      rw [gone.2.1]
      exact replaced plain field (.scalar (value v))

variable {members : List (String × Node)} {i : Nat} {path method : String} {op : Node}

theorem secureAt (here : (operations (.mapping members))[i]? = some (path,method,op)) (plain : Plain op)
    (publics : List (Text × Unit)) :
    ∃ members', Secure publics (.mapping members) = .mapping members' ∧
      (operations (.mapping members'))[i]? = some (path,method,secureOperation publics op) := by
  obtain ⟨same,members',made⟩ := operationsSecure publics members
  obtain ⟨ms,rfl,-⟩ := plain
  refine ⟨members',made,?_⟩
  rw [← made,same,operationsEach,List.getElem?_map,here]
  rfl

theorem extendAt {V : Type} (here : (operations (.mapping members))[i]? = some (path,method,op)) (plain : Plain op)
    (field : String) (value : V → String) (values : List (Text × V)) :
    ∃ members', setExtension field value values (.mapping members) = .mapping members' ∧
      (operations (.mapping members'))[i]? = some (path,method,extended field value values op) := by
  obtain ⟨same,members',made⟩ := operationsExtended field value values members
  obtain ⟨ms,rfl,-⟩ := plain
  refine ⟨members',made,?_⟩
  rw [← made,same,List.getElem?_map,here]
  rfl

def flag (v : Bool) : String := if v then "true" else "false"

def left {V : Type} (value : V → String) (values : List (Text × V)) (name : Text) (prior : Option Node) : Option Node :=
  if values.isEmpty then prior else (values.lookup name).map (fun v => Node.scalar (value v))

theorem annotatedAt (src : Text) (here : (operations (.mapping members))[i]? = some (path,method,op)) (plain : Plain op) :
    ∃ op', (operations (annotate src (.mapping members)))[i]? = some (path,method,op') ∧
      mapGet op' "security" = some (secured ((PublicMethods src).lookup (methodOf op)).isSome) ∧
      mapGet op' "x-permission" = left String.ofList (PermMethods src) (methodOf op) (mapGet op "x-permission") ∧
      mapGet op' "x-audit" = left flag (AuditMethods src) (methodOf op) (mapGet op "x-audit") ∧
      mapGet op' "x-rate-limit" = left String.ofList (LimitMethods src) (methodOf op) (mapGet op "x-rate-limit") ∧
      mapGet op' "x-max-body" = left String.ofList (MaxBodyMethods src) (methodOf op) (mapGet op "x-max-body") := by
  have named : ∀ {a b : Node}, mapGet a "operationId" = mapGet b "operationId" → methodOf a = methodOf b := fun same => by
    unfold methodOf
    rw [same]
  obtain ⟨m1,made1,at1⟩ := secureAt here plain (PublicMethods src)
  obtain ⟨p1,own1,rest1⟩ := secureOwn plain (PublicMethods src)
  obtain ⟨m2,made2,at2⟩ := extendAt at1 p1 "x-permission" String.ofList (PermMethods src)
  obtain ⟨p2,own2,rest2⟩ := extendOwn p1 "x-permission" String.ofList (PermMethods src)
  obtain ⟨m3,made3,at3⟩ := extendAt at2 p2 "x-audit" flag (AuditMethods src)
  obtain ⟨p3,own3,rest3⟩ := extendOwn p2 "x-audit" flag (AuditMethods src)
  obtain ⟨m4,made4,at4⟩ := extendAt at3 p3 "x-rate-limit" String.ofList (LimitMethods src)
  obtain ⟨p4,own4,rest4⟩ := extendOwn p3 "x-rate-limit" String.ofList (LimitMethods src)
  obtain ⟨m5,made5,at5⟩ := extendAt at4 p4 "x-max-body" String.ofList (MaxBodyMethods src)
  obtain ⟨p5,own5,rest5⟩ := extendOwn p4 "x-max-body" String.ofList (MaxBodyMethods src)
  have id1 := named (rest1 "operationId" (by decide))
  have id2 := (named (rest2 "operationId" (by decide))).trans id1
  have id3 := (named (rest3 "operationId" (by decide))).trans id2
  have id4 := (named (rest4 "operationId" (by decide))).trans id3
  rw [id1] at own2
  rw [id2] at own3
  rw [id3] at own4
  rw [id4] at own5
  have whole : annotate src (.mapping members) = .mapping m5 := by
    unfold annotate Permissions Audits Limits MaxBodies
    rw [made1,made2]
    refine (congrArg _ (congrArg _ made3)).trans ?_
    rw [made4,made5]
  refine ⟨_,by rw [whole]; exact at5,?_,?_,?_,?_,?_⟩
  · rw [rest5 _ (by decide),rest4 _ (by decide),rest3 _ (by decide),rest2 _ (by decide),own1]
  · rw [rest5 _ (by decide),rest4 _ (by decide),rest3 _ (by decide),own2,rest1 _ (by decide)]
    rfl
  · rw [rest5 _ (by decide),rest4 _ (by decide),own3,rest2 _ (by decide),rest1 _ (by decide)]
    rfl
  · rw [rest5 _ (by decide),own4,rest3 _ (by decide),rest2 _ (by decide),rest1 _ (by decide)]
    rfl
  · rw [own5,rest4 _ (by decide),rest3 _ (by decide),rest2 _ (by decide),rest1 _ (by decide)]
    rfl

end Passes
section Own
variable {V : Type} {read : Text → Option V}

theorem leftHeard {value : V → String} (single : ∀ a b, value a = value b → a = b) (src name : Text) (prior : Option Node)
    (own : Option V) : left value (annotatedMethods read src) name prior = own.map (fun v => Node.scalar (value v)) ↔
      Heard read value src name prior own := by
  unfold left Heard
  by_cases empty : (annotatedMethods read src).isEmpty = true
  · rw [if_pos empty]
    have all := (tableEmpty src).mp empty
    constructor
    · exact fun same => .inl ⟨all,same⟩
    · rintro (⟨-,same⟩ | ⟨⟨n,heard⟩,-⟩)
      · exact same
      · exact absurd (all n) heard
  · rw [if_neg empty]
    have some' : ∃ n, ¬ Unread read (fileLines src) n := by
      by_contra none
      push Not at none
      exact empty ((tableEmpty src).mpr none)
    have inside : (annotatedMethods read src).lookup name = own ↔ match own with
        | some v => LastRead read name v (fileLines src)
        | none => Unread read (fileLines src) name := by
      rw [tableMade]
      cases own with
      | none => exact (tableLookup (fileLines src) name).2
      | some v => exact (tableLookup (fileLines src) name).1 v
    have apart : ∀ a b : Option V, a.map (fun v => Node.scalar (value v)) = b.map (fun v => Node.scalar (value v)) ↔ a = b :=
      fun a b => ⟨fun same => Option.map_injective (fun x y same => single x y (Node.scalar.inj same)) same,
        fun same => same ▸ rfl⟩
    rw [apart,inside]
    constructor
    · exact fun heard => .inr ⟨some',heard⟩
    · rintro (⟨all,-⟩ | ⟨-,heard⟩)
      · obtain ⟨n,heard⟩ := some'
        exact absurd (all n) heard
      · exact heard

theorem idMethod {op : Node} {service name : Text}
    (id : mapGet op "operationId" = some (.scalar (String.ofList (service ++ '_' :: name)))) :
    methodOf op = afterUnderscore name := by
  unfold methodOf
  rw [id]
  dsimp only [Node.value]
  rw [String.toList_ofList]
  unfold afterUnderscore
  rw [List.reverse_append,List.reverse_cons,List.append_assoc]
  refine congrArg List.reverse ?_
  induction name.reverse with
  | nil => rfl
  | cons c rest ih =>
    rw [List.cons_append,List.takeWhile_cons,List.takeWhile_cons]
    split
    · rw [ih]
    · rfl

theorem publicHeard (src name : Text) (own : Bool) :
    secured ((PublicMethods src).lookup name).isSome = secured own ↔
      (own = true ↔ ∃ l ∈ fileLines src, Reads publicLine name () l) := by
  have apart : ∀ a b : Bool, secured a = secured b ↔ a = b := fun a b => by
    refine ⟨fun same => ?_,fun same => same ▸ rfl⟩
    cases a with
    | true =>
      cases b with
      | true => rfl
      | false => exact absurd (Node.sequence.inj same) (List.cons_ne_nil _ _).symm
    | false =>
      cases b with
      | true => exact absurd (Node.sequence.inj same) (List.cons_ne_nil _ _)
      | false => rfl
  have said : ((PublicMethods src).lookup name).isSome = true ↔ ∃ l ∈ fileLines src, Reads publicLine name () l := by
    have out := (@tableLookup Unit publicLine (fileLines src) name).2
    rw [← tableMade] at out
    unfold PublicMethods
    rw [← not_iff_not,Option.not_isSome_iff_eq_none,out]
    push Not
    exact ⟨fun all l mem => all l mem (),fun all l mem _ => all l mem⟩
  rw [apart,← said]
  cases ((PublicMethods src).lookup name).isSome with
  | true => cases own with
    | true => simp
    | false => simp
  | false => cases own with
    | true => simp
    | false => simp

theorem annotationsOwn (src : Text) (m : Declared src) (members : List (String × Node)) (i : Nat) (path method : String)
    (op : Node) (here : (operations (.mapping members))[i]? = some (path,method,op)) (plain : Plain op)
    (id : mapGet op "operationId" = some (.scalar (String.ofList (m.service ++ '_' :: m.name)))) :
    ∃ op', (operations (annotate src (.mapping members)))[i]? = some (path,method,op') ∧
      (mapGet op' "security" = some (secured (carried publicStated m.block).isSome) ↔
        ((carried publicStated m.block).isSome = true ↔
          ∃ l ∈ fileLines src, Reads publicLine (afterUnderscore m.name) () l)) ∧
      (mapGet op' "x-permission" = (carried permStated m.block).map (fun v => Node.scalar (String.ofList v)) ↔
        Heard permLine String.ofList src (afterUnderscore m.name) (mapGet op "x-permission") (carried permStated m.block)) ∧
      (mapGet op' "x-audit" = (carried auditStated m.block).map (fun v => Node.scalar (flag v)) ↔
        Heard auditLine flag src (afterUnderscore m.name) (mapGet op "x-audit") (carried auditStated m.block)) ∧
      (mapGet op' "x-rate-limit" = (carried limitStated m.block).map (fun v => Node.scalar (String.ofList v)) ↔
        Heard (fun t => (limitLine t).map withoutSpaces) String.ofList src (afterUnderscore m.name)
          (mapGet op "x-rate-limit") (carried limitStated m.block)) ∧
      (mapGet op' "x-max-body" = (carried maxBodyStated m.block).map (fun v => Node.scalar (String.ofList v)) ↔
        Heard (fun t => (maxBodyLine t).map withoutSpaces) String.ofList src (afterUnderscore m.name)
          (mapGet op "x-max-body") (carried maxBodyStated m.block)) := by
  obtain ⟨op',there,security,perm,audit,limit,size⟩ := annotatedAt src here plain
  rw [idMethod id] at security perm audit limit size
  have texts : ∀ a b : Text, String.ofList a = String.ofList b → a = b := fun a b same => by
    rw [← @String.toList_ofList a,same,String.toList_ofList]
  have flags : ∀ a b : Bool, flag a = flag b → a = b := by decide
  refine ⟨op',there,?_,?_,?_,?_,?_⟩
  · rw [security,Option.some.injEq]
    exact publicHeard src _ _
  · rw [perm]
    exact leftHeard texts src _ _ _
  · rw [audit]
    exact leftHeard flags src _ _ _
  · rw [limit]
    exact leftHeard texts src _ _ _
  · rw [size]
    exact leftHeard texts src _ _ _

def oneOperation (id : String) : List (String × Node) :=
  [("paths",.mapping [("/v1/user/list",.mapping [("post",.mapping [("operationId",.scalar id)])])])]

def loginFile : Text := "service S \x7b\n  // @public\n  common.Empty Login(1: Req r)\n\x7d\n".toList

def loginDeclared : Declared loginFile :=
  ⟨"S".toList,"Login".toList,["// @public".toList],"  common.Empty Login(1: Req r)".toList,by decide⟩

theorem loginPublic : ∃ op', (operations (annotate loginFile (.mapping (oneOperation "S_Login"))))[0]? =
    some ("/v1/user/list","post",op') ∧ mapGet op' "security" = some (secured true) := by
  obtain ⟨op',there,security,-⟩ := annotationsOwn loginFile loginDeclared (oneOperation "S_Login") 0 "/v1/user/list" "post"
    (.mapping [("operationId",.scalar "S_Login")]) rfl ⟨_,rfl,by decide⟩ rfl
  have said : (carried publicStated loginDeclared.block).isSome = true := by decide
  rw [said] at security
  exact ⟨op',there,security.mpr ⟨fun _ => ⟨_,loginDeclared.here,by decide,by decide⟩,fun _ => rfl⟩⟩

def listFile : Text := "service S \x7b\n  // @perm user.view\n  list<User> List(1: Req r)\n\x7d\n".toList

def listDeclared : Declared listFile :=
  ⟨"S".toList,"List".toList,["// @perm user.view".toList],"  list<User> List(1: Req r)".toList,by decide⟩

def closedFile : Text := "service S \x7b\n  // not @public: needs a login\n  common.Empty Login(1: Req r)\n\x7d\n".toList

def closedDeclared : Declared closedFile :=
  ⟨"S".toList,"Login".toList,["// not @public: needs a login".toList],"  common.Empty Login(1: Req r)".toList,by decide⟩

theorem listUnguarded : (∃ (src : Text) (m : Declared src) (members : List (String × Node)) (op : Node),
    (operations (.mapping members))[0]? = some ("/v1/user/list","post",op) ∧ Plain op ∧
      mapGet op "operationId" = some (.scalar (String.ofList (m.service ++ '_' :: m.name))) ∧
      ∀ op', (operations (annotate src (.mapping members)))[0]? = some ("/v1/user/list","post",op') →
        mapGet op' "x-permission" ≠ (carried permStated m.block).map (fun v => Node.scalar (String.ofList v))) ∧
    ∃ (src : Text) (m : Declared src) (members : List (String × Node)) (op : Node),
      (operations (.mapping members))[0]? = some ("/v1/user/list","post",op) ∧ Plain op ∧
      mapGet op "operationId" = some (.scalar (String.ofList (m.service ++ '_' :: m.name))) ∧
      ∀ op', (operations (annotate src (.mapping members)))[0]? = some ("/v1/user/list","post",op') →
        mapGet op' "security" ≠ some (secured (carried publicStated m.block).isSome) := by
  have here (id : String) : (operations (.mapping (oneOperation id)))[0]? =
    some ("/v1/user/list","post",.mapping [("operationId",.scalar id)]) := rfl
  have plain (id : String) : Plain (.mapping [("operationId",.scalar id)]) := ⟨_,rfl,by simp⟩
  refine ⟨⟨listFile,listDeclared,oneOperation "S_List",_,here _,plain _,rfl,fun op' there same => ?_⟩,
    closedFile,closedDeclared,oneOperation "S_Login",_,here _,plain _,rfl,fun op' there same => ?_⟩
  · obtain ⟨op,there',-,perm,-⟩ := annotatedAt listFile (here "S_List") (plain _)
    obtain rfl : op = op' := (Prod.mk.inj (Prod.mk.inj (Option.some.inj (there'.symm.trans there))).2).2
    have none : (PermMethods listFile).isEmpty = true := by decide
    have said : (carried permStated listDeclared.block).isSome = true := by decide
    rw [perm] at same
    unfold left at same
    rw [if_pos none] at same
    have gone := congrArg Option.isSome same
    rw [Option.isSome_map,said] at gone
    exact absurd gone (by decide)
  · obtain ⟨op,there',security,-⟩ := annotatedAt closedFile (here "S_Login") (plain _)
    obtain rfl : op = op' := (Prod.mk.inj (Prod.mk.inj (Option.some.inj (there'.symm.trans there))).2).2
    have silent : (carried publicStated closedDeclared.block).isSome = false := by decide
    have opened : ((PublicMethods closedFile).lookup (methodOf (.mapping [("operationId",.scalar "S_Login")]))).isSome = true := by
      decide
    rw [security,opened,silent] at same
    exact absurd (Node.sequence.inj (Option.some.inj same)).symm (List.cons_ne_nil _ _)

end Own
end DevkitCommon.Apidoc
