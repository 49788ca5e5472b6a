import DevkitCommon.Apidoc.Placed
import Mathlib.Data.List.Pairwise

/-! The document of a directory: the routes of all files, references that lead somewhere, and the
trees of the files exactly where their components agree. -/
namespace DevkitCommon.Apidoc.Directory
open DevkitCommon.Yaml

section Operations
variable {top op : Node} {path method : String}

theorem operationsIs (api : OpenAPI top) : (path,method,op) ∈ operations top ↔ route top path method = some op := by
  unfold operations route below
  cases found : mapGet top "paths" with
  | none => exact ⟨fun mem => absurd mem List.not_mem_nil,nofun⟩
  | some paths =>
    have levels := api.paths paths found
    rw [Option.bind_some,List.mem_flatMap]
    constructor
    · rintro ⟨p,there,mem⟩
      obtain ⟨o,inside,same⟩ := List.mem_map.mp mem
      obtain ⟨rfl,same'⟩ := Prod.mk.inj same
      obtain ⟨rfl,rfl⟩ := Prod.mk.inj same'
      rw [(mapGetMem levels.1).mpr there]
      exact (mapGetMem (levels.2 p there)).mpr inside
    · intro is
      obtain ⟨ops,there,inside⟩ := Option.bind_eq_some_iff.mp is
      exact ⟨(path,ops),(mapGetMem levels.1).mp there,
        List.mem_map.mpr ⟨(method,op),(mapGetMem (levelFlat levels there)).mp inside,rfl⟩⟩

theorem operationsOnce (api : OpenAPI top) : ((operations top).map fun o => (o.1,o.2.1)).Nodup := by
  unfold operations
  cases found : mapGet top "paths" with
  | none => exact List.nodup_nil
  | some paths =>
    have levels := api.paths paths found
    have routes : ((entries paths).flatMap fun p => (entries p.2).map fun o => (p.1,o.1,o.2)).map (fun o => (o.1,o.2.1)) =
        (entries paths).flatMap fun p => ((entries p.2).map Prod.fst).map (Prod.mk p.1) := by
      rw [List.map_flatMap]
      refine List.flatMap_congr fun p _ => ?_
      rw [List.map_map,List.map_map]
      rfl
    change (((entries paths).flatMap fun p => (entries p.2).map fun o => (p.1,o.1,o.2)).map fun o => (o.1,o.2.1)).Nodup
    rw [routes,List.nodup_flatMap]
    refine ⟨fun p mem => (levels.2 p mem).once.map fun a b same => (Prod.mk.inj same).2,?_⟩
    refine (List.pairwise_map.mp levels.1.once).imp fun {p q} differ => ?_
    intro r left right
    obtain ⟨_,_,rfl⟩ := List.mem_map.mp left
    obtain ⟨_,_,same⟩ := List.mem_map.mp right
    exact differ (Prod.mk.inj same).1.symm

end Operations
section Outcomes
variable {files : List File} {top op s : Node} {f g : File} {kind name ref : String}

structure Outcome (files : List File) (top : Node) : Prop where
  separate : Separate files
  joins : Joins (files.map fun f => f.prefixed) top

theorem routeTop (out : Outcome files top) (a b : String) :
    route top a b = some op ↔ ∃ f ∈ files, ∃ own, route f.doc a b = some own ∧ op = texts f.new own := by
  rw [out.joins.route,List.findSome?_map]
  constructor
  · intro is
    obtain ⟨f,mem,here⟩ := List.exists_of_findSome?_eq_some is
    rw [Function.comp_apply,(prefixedIs f).route] at here
    obtain ⟨own,there,rfl⟩ := Option.map_eq_some_iff.mp here
    exact ⟨f,mem,own,there,rfl⟩
  · rintro ⟨f,mem,own,there,rfl⟩
    cases is : files.findSome? ((fun d => route d a b) ∘ fun f => f.prefixed) with
    | none =>
      have absent := List.findSome?_eq_none_iff.mp is f mem
      rw [Function.comp_apply,(prefixedIs f).route,there] at absent
      cases absent
    | some op =>
      obtain ⟨g,mem',here⟩ := List.exists_of_findSome?_eq_some is
      rw [Function.comp_apply,(prefixedIs g).route] at here
      by_cases one : f = g
      · rw [← one,there] at here
        exact here.symm
      · have _ : Std.Symm fun f g : File => Free f.doc g.doc := ⟨fun _ _ free a b => (free a b).symm⟩
        rcases out.separate.forall mem mem' one a b with none | none
        · rw [none] at there
          cases there
        · rw [none] at here
          cases here

theorem componentTop (out : Outcome files top) : component top kind name = some s ↔
    ∃ g own s', First files g kind own s' ∧ g.placed kind own = name ∧ s = texts g.new s' := by
  rw [out.joins.component,List.findSome?_map,List.findSome?_eq_some_iff]
  have absent (e : File) : component e.prefixed kind name = none ↔
      ∀ own, e.placed kind own = name → component e.doc kind own = none := by
    constructor
    · intro none own same
      cases found : component e.doc kind own with
      | none => rfl
      | some s' =>
        rw [((prefixedIs e).component kind name (texts e.new s')).mpr ⟨own,s',same,found,rfl⟩] at none
        cases none
    · intro none
      cases found : component e.prefixed kind name with
      | none => rfl
      | some s =>
        obtain ⟨own,s',same,there,_⟩ := ((prefixedIs e).component kind name s).mp found
        rw [none own same] at there
        cases there
  constructor
  · rintro ⟨earlier,g,later,split,here,before⟩
    obtain ⟨own,s',rfl,there,rfl⟩ := ((prefixedIs g).component kind name s).mp here
    exact ⟨g,own,s',⟨earlier,later,split,there,fun e mem => (absent e).mp (before e mem)⟩,rfl,rfl⟩
  · rintro ⟨g,own,s',⟨earlier,later,split,there,before⟩,rfl,rfl⟩
    exact ⟨earlier,g,later,split,((prefixedIs g).component kind _ _).mpr ⟨own,s',rfl,there,rfl⟩,
      fun e mem => (absent e).mpr (before e mem)⟩

theorem placedTop (out : Outcome files top) (mem : f ∈ files) (found : component f.doc kind name = some s) :
    ∃ g own s', First files g kind own s' ∧ g.placed kind own = f.placed kind name ∧
      component top kind (f.placed kind name) = some (texts g.new s') := by
  cases is : component top kind (f.placed kind name) with
  | none =>
    rw [out.joins.component,List.findSome?_map] at is
    have absent := List.findSome?_eq_none_iff.mp is f mem
    rw [Function.comp_apply,((prefixedIs f).component kind _ (texts f.new s)).mpr ⟨name,s,rfl,found,rfl⟩] at absent
    cases absent
  | some s' =>
    obtain ⟨g,own,s'',first,same,rfl⟩ := (componentTop out).mp is
    exact ⟨g,own,s'',first,same,rfl⟩

theorem firstMem {own : String} (first : First files g kind own s) : g ∈ files := by
  obtain ⟨earlier,later,rfl,_⟩ := first
  exact List.mem_append_right _ List.mem_cons_self

theorem usedMem (used : Used files f kind name) : f ∈ files := by
  induction used with
  | operation mem => exact mem
  | inside _ _ _ _ ih => exact ih
  | first _ earliest => exact firstMem earliest

theorem targetIs (resolves : (target top ref).isSome = true) :
    ∃ kind name s, place ref = some (kind,name) ∧ component top kind name = some s := by
  obtain ⟨s,is⟩ := Option.isSome_iff_exists.mp resolves
  obtain ⟨p,place,found⟩ := Option.bind_eq_some_iff.mp is
  exact ⟨p.1,p.2,s,place,found⟩

theorem targetTop (is : place ref = some (kind,name)) (found : component f.doc kind name = some s) :
    target top (f.new ref) = component top kind (f.placed kind name) := by
  rw [target,placeNew is found]
  rfl

theorem resolvedTop (out : Outcome files top) (mem : f ∈ files) {n : Node}
    (resolved : ∀ ref ∈ refs n, (target f.doc ref).isSome = true) : ∀ ref ∈ refs (texts f.new n), (target top ref).isSome = true := by
  intro ref there
  rw [refsTexts (newKeeps f.toSource)] at there
  obtain ⟨own,inside,rfl⟩ := List.mem_map.mp there
  obtain ⟨kind,name,s,is,found⟩ := targetIs (resolved own inside)
  obtain ⟨g,_,s',_,_,top⟩ := placedTop out mem found
  rw [targetTop is found,top]
  rfl

theorem outcomeResolved (out : Outcome files top) : Resolved top := by
  constructor
  · intro p m op is
    obtain ⟨f,mem,own,there,rfl⟩ := (routeTop out p m).mp is
    exact resolvedTop out mem (f.resolved.operations p m own there)
  · intro kind name s is
    obtain ⟨g,own,s',first,_,rfl⟩ := (componentTop out).mp is
    have mem := firstMem first
    obtain ⟨_,_,_,found,_⟩ := first
    exact resolvedTop out mem (g.resolved.components kind own s' found)

theorem outcomePresent (out : Outcome files top) : Present files top := by
  refine ⟨operationsOnce out.joins.api,fun path method op => ?_⟩
  rw [operationsIs out.joins.api,routeTop out]
  refine exists_congr fun f => and_congr_right fun _ => exists_congr fun own => and_congr_left fun _ => ?_
  exact (operationsIs f.api).symm

end Outcomes
section Trees
variable {files : List File} {top n s : Node} {f g : File} {kind name : String}

theorem exchangeRefs (op : Node) : ∀ ref ∈ refs (exchange op), ref ∈ refs op := by
  cases op with
  | scalar v => exact fun _ mem => absurd mem List.not_mem_nil
  | sequence items => exact fun _ mem => absurd mem List.not_mem_nil
  | mapping ms =>
    intro ref
    rw [exchange,refs,refs]
    induction ms with
    | nil => exact id
    | cons m ms ih =>
      rw [List.filter_cons]
      split
      · rw [refsMembers,refsMembers,List.mem_append,List.mem_append]
        exact Or.imp_right ih
      · rw [refsMembers,List.mem_append]
        exact fun mem => .inr (ih mem)

def Reached (files : List File) (f : File) (n : Node) : Prop := ∀ ref ∈ refs n, ∃ kind name s,
  place ref = some (kind,name) ∧ component f.doc kind name = some s ∧ Used files f kind name

theorem operationReached {path method : String} {own : Node} (mem : f ∈ files) (there : (path,method,own) ∈ operations f.doc) :
    Reached files f (exchange own) := by
  intro ref refers
  have resolves := f.resolved.operations path method own ((operationsIs f.api).mp there) ref (exchangeRefs own ref refers)
  obtain ⟨kind,name,s,is,found⟩ := targetIs resolves
  exact ⟨kind,name,s,is,found,.operation mem there refers is⟩

theorem usedReached (used : Used files f kind name) (found : component f.doc kind name = some s) : Reached files f s := by
  intro ref refers
  obtain ⟨kind',name',s',is,found'⟩ := targetIs (f.resolved.components kind name s found ref refers)
  exact ⟨kind',name',s',is,found',.inside used found refers is⟩

/- The induction is on the depth: a reference leads to the component of the first file that has the
name, and that one agrees with the file's own. -/
theorem treesSame (out : Outcome files top) (agree : Agree files) (depth : Nat) : ∀ f ∈ files, ∀ n, Plain f.toSource n →
    Reached files f n → tree top depth (texts f.new n) = tree f.doc depth n := by
  induction depth with
  | zero =>
    intro f _ n plain _
    exact grownTexts (newKeeps f.toSource) n fun v mem => (newPlain f.toSource v).mpr (plain v mem)
  | succ depth ih =>
    intro f mem n plain reached
    rw [tree,tree,grownTexts (newKeeps f.toSource) n fun v there => (newPlain f.toSource v).mpr (plain v there)]
    refine grownSame n fun ref refers => ?_
    obtain ⟨kind,name,s,is,found,used⟩ := reached ref refers
    obtain ⟨g,own,s',first,same,joined⟩ := placedTop out mem found
    have used' := used.first first same
    have whole : component g.doc kind own = some s' := by
      obtain ⟨_,_,_,there,_⟩ := first
      exact there
    have below : tree top depth (texts g.new s') = tree f.doc depth s :=
      (ih g (firstMem first) s' (agree.components g kind own s' used' first) (usedReached used' whole)).trans
        (agree.trees f g kind name own s s' used found first same depth).symm
    rw [targetTop is found,joined,target,is]
    change (some (tree top depth (texts g.new s'))).getD cut = (((component f.doc kind name).map _).getD cut)
    rw [found,below]
    rfl

theorem agreeKept (out : Outcome files top) (agree : Agree files) : Kept files top := by
  constructor
  · intro f mem path method own there
    refine ⟨texts f.new own,?_,fun depth => ?_⟩
    · rw [operationsIs out.joins.api,routeTop out]
      exact ⟨f,mem,own,(operationsIs f.api).mp there,rfl⟩
    · rw [exchangeTexts (newNamed f.toSource)]
      exact treesSame out agree depth f mem _ (agree.operations f mem path method own there) (operationReached mem there)
  · intro f kind name own used found
    obtain ⟨g,name',s',first,same,joined⟩ := placedTop out (usedMem used) found
    have used' := used.first first same
    have whole : component g.doc kind name' = some s' := by
      obtain ⟨_,_,_,there,_⟩ := first
      exact there
    refine ⟨_,joined,fun depth => ?_⟩
    rw [agree.trees f g kind name name' own s' used found first same depth]
    exact treesSame out agree depth g (firstMem first) s' (agree.components g kind name' s' used' first) (usedReached used' whole)

theorem plainTree (f : Source) (top doc : Node) (same : tree top 0 (texts f.new n) = tree doc 0 n) : Plain f n := fun v mem =>
  (newPlain f v).mp (grownPlain (newKeeps f) n same v mem)

theorem keptAgree (out : Outcome files top) (kept : Kept files top) : Agree files := by
  constructor
  · intro f g kind name name' s s' used found first same depth
    obtain ⟨one,is,trees⟩ := kept.components f kind name s used found
    have used' := used.first first same
    obtain ⟨_,_,_,whole,_⟩ := first
    obtain ⟨other,is',trees'⟩ := kept.components g kind name' s' used' whole
    rw [same,is] at is'
    obtain rfl := Option.some.inj is'
    exact (trees depth).symm.trans (trees' depth)
  · intro f mem path method own there
    obtain ⟨op,is,trees⟩ := kept.operations f mem path method own there
    rw [operationsIs out.joins.api] at is
    have made : route top path method = some (texts f.new own) := (routeTop out path method).mpr
      ⟨f,mem,own,(operationsIs f.api).mp there,rfl⟩
    obtain rfl := Option.some.inj (is.symm.trans made)
    refine plainTree f.toSource top f.doc ?_
    rw [← exchangeTexts (newNamed f.toSource)]
    exact trees 0
  · intro g kind name s used first
    have made : component top kind (g.placed kind name) = some (texts g.new s) := (componentTop out).mpr ⟨g,name,s,first,rfl,rfl⟩
    obtain ⟨_,_,_,whole,_⟩ := first
    obtain ⟨other,is,trees⟩ := kept.components g kind name s used whole
    obtain rfl := Option.some.inj (is.symm.trans made)
    exact plainTree g.toSource _ _ (trees 0)

theorem noneAgree : Agree [] := by
  constructor
  · exact fun f _ _ _ _ _ _ used => absurd (usedMem used) List.not_mem_nil
  · exact fun _ mem => absurd mem List.not_mem_nil
  · exact fun g _ _ _ used => absurd (usedMem used) List.not_mem_nil

theorem runOutcome (dir : String) (files : List File) :
    (¬ Separate files → ∃ err, runDir dir (files.map File.toSource) = .error err) ∧
      (files ≠ [] → Separate files → ∃ top, runDir dir (files.map File.toSource) = .ok top ∧ Outcome files top) := by
  cases files with
  | nil => exact ⟨fun apart => absurd List.Pairwise.nil apart,fun some => absurd rfl some⟩
  | cons f rest =>
    obtain ⟨fine,clash⟩ := runIs f rest
    refine ⟨fun taken => ?_,fun _ separate => ?_⟩
    · obtain ⟨err,is⟩ := clash taken
      exact ⟨err,by rw [runDir,is]; rfl⟩
    · obtain ⟨top,is,joins⟩ := fine separate
      exact ⟨top,by rw [runDir,is]; rfl,separate,joins⟩

theorem mergedRight (dir : String) (files : List File) :
    (¬ Separate files → ∃ err, runDir dir (files.map File.toSource) = .error err) ∧
      (∀ top, runDir dir (files.map File.toSource) = .ok top → Present files top ∧ Resolved top) ∧
        (Right dir files ↔ (Separate files → Agree files)) := by
  obtain ⟨refused,fine⟩ := runOutcome dir files
  have ok {top : Node} (is : runDir dir (files.map File.toSource) = .ok top) : Outcome files top := by
    by_cases separate : Separate files
    · by_cases empty : files = []
      · subst empty
        cases is
      · obtain ⟨top',is',out⟩ := fine empty separate
        obtain rfl := Except.ok.inj (is.symm.trans is')
        exact out
    · obtain ⟨err,is'⟩ := refused separate
      cases is.symm.trans is'
  refine ⟨refused,fun top is => ⟨outcomePresent (ok is),outcomeResolved (ok is)⟩,?_⟩
  constructor
  · rintro (⟨err,is⟩ | ⟨top,is,_,_,kept⟩) separate
    · by_cases empty : files = []
      · exact empty ▸ noneAgree
      · obtain ⟨top,is',_⟩ := fine empty separate
        cases is.symm.trans is'
    · exact keptAgree (ok is) kept
  · intro agree
    by_cases separate : Separate files
    · by_cases empty : files = []
      · subst empty
        exact .inl ⟨_,rfl⟩
      · obtain ⟨top,is,out⟩ := fine empty separate
        exact .inr ⟨top,is,outcomePresent out,outcomeResolved out,agreeKept out (agree separate)⟩
    · exact .inl (refused separate)

end Trees
section Clash

def item (field : String) : Node := .mapping [("properties",.mapping [(field,.mapping [("type",.scalar "string")])])]

def itemRef : Node := .mapping [("$ref",.scalar "#/components/schemas/Item")]

def getItem : Node := .mapping [("responses",.mapping [("200",.mapping [("content",.mapping [("application/json",
  .mapping [("schema",itemRef)])])])])]

def itemDoc (path field : String) : Node := .mapping [("paths",.mapping [(path,.mapping [("get",getItem)])]),
  ("components",.mapping [("schemas",.mapping [("Item",item field)])])]

theorem flatOne {k : String} {v : Node} (named : Named k) : Flat (.mapping [(k,v)]) := by
  refine ⟨rfl,List.nodup_singleton k,fun m mem => ?_⟩
  exact List.mem_singleton.mp mem ▸ named

theorem levelsOne {k key : String} {v : Node} (named : Named k) (inner : Named key) : Levels (.mapping [(k,.mapping [(key,v)])]) := by
  refine ⟨flatOne named,fun m mem => ?_⟩
  exact List.mem_singleton.mp mem ▸ flatOne inner

theorem itemNames : Named "get" ∧ Named "schemas" ∧ Named "Item" := by
  unfold Named
  decide +kernel

theorem innerOne {a b k key : String} {v s : Node} (is : inner (.mapping [(k,.mapping [(key,v)])]) a b = some s) :
    a = k ∧ b = key ∧ s = v := by
  obtain ⟨m,outer,found⟩ := Option.bind_eq_some_iff.mp is
  have one {j i : String} {w u : Node} (here : mapGet (.mapping [(i,w)]) j = some u) : j = i ∧ u = w := by
    change [(i,w)].lookup j = some u at here
    rw [List.lookup_cons] at here
    cases same : j == i with
    | true =>
      rw [same] at here
      exact ⟨beq_iff_eq.mp same,(Option.some.inj here).symm⟩
    | false =>
      rw [same] at here
      cases here
  obtain ⟨rfl,rfl⟩ := one outer
  obtain ⟨rfl,rfl⟩ := one found
  exact ⟨rfl,rfl,rfl⟩

theorem itemApi {path field : String} (named : Named path) : OpenAPI (itemDoc path field) := by
  obtain ⟨paths,components,_⟩ := namedParts
  obtain ⟨get,schemas,name⟩ := itemNames
  constructor
  · refine ⟨rfl,by change ["paths","components"].Nodup; decide,fun m mem => ?_⟩
    rcases List.mem_cons.mp mem with rfl | mem
    · exact paths
    · exact List.mem_singleton.mp mem ▸ components
  · intro n is
    obtain rfl := Option.some.inj is
    exact levelsOne named get
  · intro n is
    obtain rfl := Option.some.inj is
    exact levelsOne schemas name

theorem itemResolved (path field : String) : Resolved (itemDoc path field) := by
  constructor
  · intro p m op is ref mem
    obtain ⟨rfl,rfl,rfl⟩ := innerOne (v := getItem) is
    obtain rfl : ref = schemaRefPrefix ++ "Item" := List.mem_singleton.mp mem
    rw [target,schemasRef,placeIs schemasSimple]
    rfl
  · intro k n s is ref mem
    obtain ⟨rfl,rfl,rfl⟩ := innerOne (v := item field) is
    exact absurd mem List.not_mem_nil

theorem shopWord : ∀ c ∈ "shop".toList, c.isAlphanum = true ∨ c = '_' ∨ c = '.' := by
  have word : ("shop".toList.all fun c => c.isAlphanum) = true := by decide +kernel
  exact fun c mem => .inl (List.all_eq_true.mp word c mem)

def shop (name path field : String) (named : Named path) : File where
  name := name
  ns := "shop"
  doc := itemDoc path field
  word := shopWord
  api := itemApi named
  resolved := itemResolved path field

theorem itemsClash : ¬ ∀ dir files, Right dir files := by
  have named : Named "/a" ∧ Named "/b" := by
    unfold Named
    decide +kernel
  intro right
  let a := shop "a.thrift" "/a" "color" named.1
  let b := shop "b.thrift" "/b" "size" named.2
  have separate : Separate [a,b] := by
    refine List.pairwise_pair.mpr fun path method => ?_
    cases first : route a.doc path method with
    | none => exact .inl rfl
    | some op =>
      cases second : route b.doc path method with
      | none => exact .inr rfl
      | some op' =>
        obtain ⟨one,_⟩ := innerOne first
        obtain ⟨other,_⟩ := innerOne second
        exact absurd (one.symm.trans other) (by decide)
  obtain ⟨top,is,out⟩ := (runOutcome "idl" [a,b]).2 (List.cons_ne_nil _ _) separate
  have kept : Kept [a,b] top := by
    rcases right "idl" [a,b] with ⟨err,is'⟩ | ⟨top',is',_,_,kept⟩
    · cases is.symm.trans is'
    · exact Except.ok.inj (is'.symm.trans is) ▸ kept
  have used : Used [a,b] b "schemas" "Item" := by
    have own : ("/b","get",getItem) ∈ operations b.doc := List.mem_cons_self
    have refers : schemaRefPrefix ++ "Item" ∈ refs (exchange getItem) := List.mem_cons_self
    have leads : place (schemaRefPrefix ++ "Item") = some ("schemas","Item") := by rw [schemasRef,placeIs schemasSimple]
    exact .operation (List.mem_cons_of_mem a List.mem_cons_self) own refers leads
  have first : First [a,b] a "schemas" "Item" (item "color") := ⟨[],[b],rfl,rfl,fun _ mem => absurd mem List.not_mem_nil⟩
  have same := (keptAgree out kept).trees b a "schemas" "Item" "Item" _ _ used rfl first rfl 0
  have fields : ([("size",Node.mapping [("type",.scalar "string")])] : List (String × Node)) =
      [("color",.mapping [("type",.scalar "string")])] :=
    Node.mapping.inj (Prod.mk.inj (List.cons.inj (Node.mapping.inj same)).1).2
  exact absurd (Prod.mk.inj (List.cons.inj fields).1).1 (by decide)

end Clash
end DevkitCommon.Apidoc.Directory
