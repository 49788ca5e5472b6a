import DevkitCommon.Apidoc.Split

/-! What the bodies of a document lead to by all of its references, and what the search for its
schemas finds of it. -/
namespace DevkitCommon.Apidoc
open DevkitCommon.Yaml DevkitCommon.Reach DevkitCommon.Pairs

section Statements

def schemasOf (top : Node) : Node :=
  match mapGet top "components" with
  | none => .mapping []
  | some comps => (mapGet comps "schemas").getD (.mapping [])

inductive Follows (top : Node) (member : String) : String → Prop where
  | body {op body r} (mem : op ∈ operations top) (found : mapGet op.2.2 member = some body) (ref : r ∈ references body) :
      Follows top member r
  | next {r n r'} (before : Follows top member r) (there : resolve top r = some n) (ref : r' ∈ references n) :
      Follows top member r'

/- Those of them behind a reference to something else than a schema. -/
inductive Behind (top : Node) (member : String) : String → Prop where
  | past {r n r'} (before : Follows top member r) (other : refTo r = none) (there : resolve top r = some n)
      (ref : r' ∈ references n) : Behind top member r'
  | next {r n r'} (before : Behind top member r) (there : resolve top r = some n) (ref : r' ∈ references n) :
      Behind top member r'

def Leads (top : Node) (member n : String) : Prop :=
  (mapGet (schemasOf top) n).isSome = true ∧ Follows top member (schemaRefPrefix ++ n)

def Resolves (top : Node) : Prop := Within (fun r => (resolve top r).isSome = true) top

def Word (s : String) : Prop := '/' ∉ s.toList ∧ '~' ∉ s.toList

structure Shaped (top : Node) : Prop where
  object : ∃ members, top = .mapping members
  components : ∀ comps, mapGet top "components" = some comps → ∃ members, comps = .mapping members
  schemas : ∃ members, schemasOf top = .mapping members

structure Document (top : Node) : Prop where
  shaped : Shaped top
  schemas : ∀ m ∈ entries (schemasOf top), Word m.1 ∧ SchemaObject m.2
  resolves : Resolves top

def componentRef (part name : String) : String := "#/components/" ++ part ++ "/" ++ name

structure Sighted (top : Node) : Prop where
  components : Within (fun r => ∃ part name, Word part ∧ Word name ∧ r = componentRef part name) top
  request : ∀ n, Behind top "requestBody" (schemaRefPrefix ++ n) → ¬ Follows top "responses" (schemaRefPrefix ++ n)
  responses : ∀ n, Behind top "responses" (schemaRefPrefix ++ n) → ¬ Follows top "requestBody" (schemaRefPrefix ++ n)

def Found (top : Node) (member n : String) : Prop := Reached (graph (schemasOf top)) (rootRefs top member) n

end Statements
section Pointers
variable {top : Node} {part name n : String}

theorem unescapedPlain {cs : List Char} (plain : '~' ∉ cs) : unescaped cs = cs := by
  fun_induction unescaped cs with
  | case1 => rfl
  | case2 rest ih => exact absurd List.mem_cons_self plain
  | case3 rest ih => exact absurd List.mem_cons_self plain
  | case4 c rest _ _ ih => rw [ih (fun mem => plain (List.mem_cons_of_mem c mem))]

theorem componentSchemas (n : String) : componentRef "schemas" n = schemaRefPrefix ++ n := rfl

theorem componentText (part name : String) :
    (componentRef part name).toList = "#/components/".toList ++ (part.toList ++ '/' :: name.toList) := by
  unfold componentRef
  rw [String.toList_append,String.toList_append,String.toList_append,List.append_assoc,List.append_assoc]
  rfl

theorem pointerComponent (kind : Word part) (word : Word name) : pointer (componentRef part name) = some ["components",part,name] := by
  have text : (componentRef part name).toList = '#' :: '/' :: ("components".toList ++ '/' :: (part.toList ++ '/' :: name.toList)) :=
    componentText part name
  rw [pointer,text]
  change some _ = _
  rw [List.splitOn_append_cons_self_of_not_mem (by decide),List.splitOn_append_cons_self_of_not_mem kind.1,
    List.splitOn_eq_singleton word.1,List.map_cons,List.map_cons,List.map_singleton,unescapedPlain kind.2,unescapedPlain word.2,
    String.ofList_toList,String.ofList_toList]
  rfl

theorem refToComponent (kind : Word part) (apart : part ≠ "schemas") (name : String) : refTo (componentRef part name) = none := by
  cases is : refTo (componentRef part name) with
  | none => rfl
  | some m =>
    have form := congrArg String.toList (refToForm is)
    rw [← componentSchemas,componentText,componentText] at form
    have cut := congrArg (List.takeWhile (fun c => c != '/')) (List.append_cancel_left form)
    have stops (l rest : List Char) (out : '/' ∉ l) : (l ++ '/' :: rest).takeWhile (fun c => c != '/') = l := by
      have all : ∀ c ∈ l, (c != '/') = true := fun c mem => bne_iff_ne.mpr (ne_of_mem_of_not_mem mem out)
      rw [List.takeWhile_append_of_pos all]
      exact List.append_nil l
    rw [stops _ _ kind.1,stops _ _ (by decide)] at cut
    exact absurd (String.toList_inj.mp cut) apart

theorem underMapping {m : Node} (object : ∃ members, m = .mapping members) (k : String) : under m k = mapGet m k := by
  obtain ⟨members,rfl⟩ := object
  rfl

theorem resolveComponent (shaped : Shaped top) (kind : Word part) (word : Word name) :
    resolve top (componentRef part name) =
      ((mapGet top "components").bind (fun comps => mapGet comps part)).bind (fun n => under n name) := by
  rw [resolve,pointerComponent kind word,Option.bind_some,walk,underMapping shaped.object]
  cases found : mapGet top "components" with
  | none => rfl
  | some comps =>
    rw [Option.bind_some,Option.bind_some,walk,underMapping (shaped.components comps found)]
    cases mapGet comps part with
    | none => rfl
    | some n =>
      rw [Option.bind_some,Option.bind_some,walk]
      cases under n name <;> rfl

theorem resolveSchema (shaped : Shaped top) (word : Word n) : resolve top (schemaRefPrefix ++ n) = mapGet (schemasOf top) n := by
  obtain ⟨ms,same⟩ := shaped.schemas
  rw [← componentSchemas,resolveComponent shaped (by unfold Word; decide) word]
  unfold schemasOf at same ⊢
  cases found : mapGet top "components" with
  | none => rfl
  | some comps =>
    rw [found] at same
    dsimp only at same ⊢
    rw [Option.bind_some]
    cases here : mapGet comps "schemas" with
    | none => rfl
    | some schemas =>
      rw [here] at same
      obtain rfl : schemas = .mapping ms := same
      rfl

end Pointers
section Searches
variable {top : Node} {member r n : String} {s : Node}

theorem schemaEntry (doc : Document top) (found : mapGet (schemasOf top) n = some s) : Word n ∧ SchemaObject s :=
  doc.schemas (n,s) (lookupMem found)

inductive Kind (top : Node) : String → Prop where
  | schema {n : String} {s : Node} (word : Word n) (found : mapGet (schemasOf top) n = some s) : Kind top (schemaRefPrefix ++ n)
  | other {part name : String} {n : Node} (apart : part ≠ "schemas") (kind : Word part) (word : Word name)
      (there : resolve top (componentRef part name) = some n) : Kind top (componentRef part name)

theorem withinKind (doc : Document top) (sighted : Sighted top) : Within (Kind top) top := by
  intro r mem
  obtain ⟨n,there⟩ := Option.isSome_iff_exists.mp (doc.resolves r mem)
  obtain ⟨part,name,kind,word,rfl⟩ := sighted.components r mem
  by_cases schema : part = "schemas"
  · subst schema
    rw [componentSchemas,resolveSchema doc.shaped word] at there
    exact .schema word there
  · exact .other schema kind word there

theorem kindSchema (kind : Kind top (schemaRefPrefix ++ n)) : ∃ s, mapGet (schemasOf top) n = some s := by
  generalize same : schemaRefPrefix ++ n = r at kind
  cases kind with
  | @schema k s word found =>
    have is := refToPrefix k
    rw [← same,refToPrefix] at is
    exact ⟨s,Option.some.inj is ▸ found⟩
  | @other part name _ apart kind word there =>
    have is := refToComponent kind apart name
    rw [← same,refToPrefix] at is
    exact absurd is (Option.some_ne_none _)

theorem underWithin {G : String → Prop} {m m' : Node} (all : Within G m) (is : under m name = some m') : Within G m' := by
  cases m with
  | scalar v => cases is
  | sequence items =>
    obtain ⟨i,-,there⟩ := Option.bind_eq_some_iff.mp is
    exact withinItems.mp all m' (List.mem_of_getElem? there)
  | mapping members =>
    by_cases plain : name ≠ "$ref" ∨ m'.value = ""
    · exact entryWithin all (lookupMem is) plain
    · cases m' with
      | scalar v => exact fun _ mem => absurd mem List.not_mem_nil
      | sequence | mapping => exact absurd (.inr rfl) plain

theorem walkWithin {G : String → Prop} {names : List String} {m m' : Node} (all : Within G m) (is : walk m names = some m') :
    Within G m' := by
  induction names generalizing m with
  | nil =>
    obtain rfl := Option.some.inj is
    exact all
  | cons name names ih =>
    obtain ⟨n,here,later⟩ := Option.bind_eq_some_iff.mp is
    exact ih (underWithin all here) later

theorem resolveWithin {G : String → Prop} {m : Node} (all : Within G top) (is : resolve top r = some m) : Within G m := by
  obtain ⟨names,-,there⟩ := Option.bind_eq_some_iff.mp is
  exact walkWithin all there

theorem followsWithin {G : String → Prop} (all : Within G top) (plain : member ≠ "$ref") (follows : Follows top member r) : G r := by
  cases follows with
  | body mem found ref => exact bodyWithin all mem found plain r ref
  | next before there ref => exact resolveWithin all there r ref

def heldBy (l : List String) (n : Node) : Bool := (references n).all fun r => decide (r ∈ l)

def closedIn (top : Node) (l : List String) : Bool := l.all fun r => (resolve top r).all (heldBy l)

theorem heldMem {l : List String} {m : Node} (held : heldBy l m = true) (ref : r ∈ references m) : r ∈ l :=
  of_decide_eq_true (List.all_eq_true.mp held r ref)

theorem heldNext {l l' : List String} {m : Node} (all : (l.all fun r => (resolve top r).all (heldBy l')) = true) (mem : r ∈ l)
    (there : resolve top r = some m) : heldBy l' m = true := by
  have here := List.all_eq_true.mp all r mem
  rwa [there] at here

theorem followsListed {l : List String} (bodies : ((operations top).all fun op => (mapGet op.2.2 member).all (heldBy l)) = true)
    (closed : closedIn top l = true) (follows : Follows top member r) : r ∈ l := by
  induction follows with
  | body mem found ref =>
    have here := List.all_eq_true.mp bodies _ mem
    rw [found] at here
    exact heldMem here ref
  | next before there ref ih => exact heldMem (heldNext closed ih there) ref

theorem behindListed {l : List String} (l' : List String) (listed : ∀ r, Follows top member r → r ∈ l)
    (others : ((l.filter fun r => (refTo r).isNone).all fun r => (resolve top r).all (heldBy l')) = true)
    (closed : closedIn top l' = true) (behind : Behind top member r) : r ∈ l' := by
  induction behind with
  | past before other there ref =>
    have none' : (refTo _).isNone = true := Option.isNone_iff_eq_none.mpr other
    exact heldMem (heldNext others (List.mem_filter.mpr ⟨listed _ before,none'⟩) there) ref
  | next before there ref ih => exact heldMem (heldNext closed ih there) ref

theorem foundFollows (doc : Document top) (found : Found top member n) : Follows top member (schemaRefPrefix ++ n) := by
  induction found with
  | root mem found =>
    obtain ⟨op,inside,body,here,ref⟩ := rootsMem.mp mem
    exact .body inside here (refsMem.mp ref)
  | next before found mem there ih =>
    obtain ⟨s,here,rfl⟩ := graphFound found
    refine .next ih ?_ (refsMem.mp mem)
    rw [resolveSchema doc.shaped (schemaEntry doc here).1,here]

theorem foundSchema (found : Found top member n) : ∃ s, mapGet (schemasOf top) n = some s := reachedFound found

theorem foundOr (doc : Document top) (sighted : Sighted top) (plain : member ≠ "$ref") (follows : Follows top member r) :
    ∀ n, r = schemaRefPrefix ++ n → Found top member n ∨ Behind top member r := by
  induction follows with
  | @body op body r mem found ref =>
    rintro n rfl
    have kind := followsWithin (withinKind doc sighted) plain (.body mem found ref)
    obtain ⟨s,here⟩ := kindSchema kind
    have linked : (graph (schemasOf top)).lookup n = some (refsIn s) := by
      rw [graphLookup,here]
      rfl
    exact .inl (.root (rootsMem.mpr ⟨op,mem,body,found,refsMem.mpr ref⟩) linked)
  | @next r m r' before there ref ih =>
    rintro n rfl
    have kind := followsWithin (withinKind doc sighted) plain before
    have last := followsWithin (withinKind doc sighted) plain (.next before there ref)
    cases kind with
    | other apart part word here => exact .inr (.past before (refToComponent part apart _) there ref)
    | @schema k s word here =>
      rcases ih k rfl with found | behind
      · rw [resolveSchema doc.shaped word,here] at there
        obtain rfl := Option.some.inj there
        obtain ⟨s',here'⟩ := kindSchema last
        refine .inl (@Reached.next _ _ _ _ k (refsIn s) n (refsIn s') found ?_ (refsMem.mpr ref) ?_)
        · rw [graphLookup,here]
          rfl
        · rw [graphLookup,here']
          rfl
      · exact .inr (.next behind there ref)

end Searches
end DevkitCommon.Apidoc
