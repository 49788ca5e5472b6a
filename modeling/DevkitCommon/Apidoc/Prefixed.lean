import DevkitCommon.Apidoc.Joined

/-! A file with its namespace before its schemas, and the files of a directory one after the other:
the outcome has the routes of all of them, and of each component the first. -/
namespace DevkitCommon.Apidoc.Directory
open DevkitCommon.Yaml

section Texts
variable {f : String → String} {n : Node}

theorem textsMap (f : String → String) (ms : List (String × Node)) : textsMembers f ms = ms.map fun m => (f m.1,texts f m.2) := by
  induction ms with
  | nil => rfl
  | cons m ms ih =>
    rw [textsMembers,ih]
    rfl

mutual
theorem textsSame (same : ∀ v, f v = v) : (n : Node) → texts f n = n
  | .scalar v => congrArg Node.scalar (same v)
  | .sequence items => congrArg Node.sequence (textsSameItems same items)
  | .mapping members => congrArg Node.mapping (textsSameMembers same members)
theorem textsSameItems (same : ∀ v, f v = v) : (items : List Node) → textsItems f items = items
  | [] => rfl
  | n::rest => congrArg₂ List.cons (textsSame same n) (textsSameItems same rest)
theorem textsSameMembers (same : ∀ v, f v = v) : (members : List (String × Node)) → textsMembers f members = members
  | [] => rfl
  | (k,v)::rest => congrArg₂ List.cons (congrArg₂ Prod.mk (same k) (textsSame same v)) (textsSameMembers same rest)
end

def Fixes (f : String → String) : Prop := ∀ k, Named k → f k = k

theorem entriesTexts (fixes : Fixes f) (flat : Flat n) : entries (texts f n) = (entries n).map fun m => (m.1,texts f m.2) := by
  obtain ⟨ms,rfl⟩ := flatForm flat
  change textsMembers f ms = _
  rw [textsMap]
  exact List.map_congr_left fun m mem => by rw [fixes m.1 (flat.named m mem)]

theorem flatTexts (fixes : Fixes f) (flat : Flat n) : Flat (texts f n) := by
  have same := entriesTexts fixes flat
  refine ⟨?_,?_,fun m mem => ?_⟩
  · obtain ⟨ms,rfl⟩ := flatForm flat
    rfl
  · rw [same,List.map_map]
    exact flat.once
  · rw [same] at mem
    obtain ⟨o,there,rfl⟩ := List.mem_map.mp mem
    exact flat.named o there

theorem mapGetTexts (fixes : Fixes f) (flat : Flat n) (k : String) : mapGet (texts f n) k = (mapGet n k).map (texts f) := by
  unfold mapGet
  rw [entriesTexts fixes flat]
  exact lookupMap (entries n) (fun _ => texts f) k

theorem levelsTexts (fixes : Fixes f) (levels : Levels n) : Levels (texts f n) := by
  refine ⟨flatTexts fixes levels.1,fun m mem => ?_⟩
  rw [entriesTexts fixes levels.1] at mem
  obtain ⟨o,there,rfl⟩ := List.mem_map.mp mem
  exact flatTexts fixes (levels.2 o there)

theorem apiTexts (fixes : Fixes f) (api : OpenAPI n) : OpenAPI (texts f n) := by
  have level {part : String} (levels : ∀ m, mapGet n part = some m → Levels m) (m : Node)
      (is : mapGet (texts f n) part = some m) : Levels m := by
    rw [mapGetTexts fixes api.flat] at is
    obtain ⟨old,found,rfl⟩ := Option.map_eq_some_iff.mp is
    exact levelsTexts fixes (levels old found)
  exact ⟨flatTexts fixes api.flat,level api.paths,level api.components⟩

theorem belowTexts (fixes : Fixes f) (api : OpenAPI n) {part : String} (levels : ∀ m, mapGet n part = some m → Levels m) (a b : String) :
    below (texts f n) part a b = (below n part a b).map (texts f) := by
  unfold below
  rw [mapGetTexts fixes api.flat]
  cases found : mapGet n part with
  | none => rfl
  | some m =>
    have two := levels m found
    rw [Option.map_some,Option.bind_some,Option.bind_some,mapGetTexts fixes two.1]
    cases found' : mapGet m a with
    | none => rfl
    | some o =>
      rw [Option.map_some,Option.bind_some,Option.bind_some]
      exact mapGetTexts fixes (levelFlat two found') b

end Texts
section Namespaces
variable {ns : String} {schemas top : Node}

theorem renamesFixes (ns : String) (schemas : Node) : Fixes (renameText (renamed ns schemas)) := by
  intro k named
  have absent : (renamed ns schemas).lookup k = none := by
    refine List.lookup_eq_none_iff.mpr fun p mem => ?_
    obtain ⟨m,_,rfl⟩ := List.mem_map.mp mem
    refine bne_iff_ne.mpr fun same => named ?_
    rw [same,String.toList_append]
    rfl
  rw [renameText,absent]
  rfl

theorem sourceFixes (f : Source) : Fixes f.new := by
  intro k named
  unfold Source.new Source.renames
  split
  · rfl
  · split
    · rfl
    · exact renamesFixes _ _ k named

theorem prefixInjective {a b : String} (same : ns ++ "." ++ a = ns ++ "." ++ b) : a = b := by
  have chars := congrArg String.toList same
  simp only [String.toList_append] at chars
  exact String.toList_inj.mp (List.append_cancel_left chars)

theorem prefixNamed (word : ∀ c ∈ ns.toList, c.isAlphanum = true ∨ c = '_' ∨ c = '.') (k : String) : Named (ns ++ "." ++ k) := by
  unfold Named
  rw [String.toList_append,String.toList_append]
  cases front : ns.toList with
  | nil =>
    intro same
    exact absurd (Option.some.inj same) (by decide)
  | cons c cs =>
    intro same
    obtain rfl : c = '#' := Option.some.inj same
    rcases word '#' (front ▸ List.mem_cons_self) with is | is | is <;> exact absurd is (by decide)

theorem prefixFlat (word : ∀ c ∈ ns.toList, c.isAlphanum = true ∨ c = '_' ∨ c = '.') (flat : Flat schemas) :
    Flat (prefixKeys ns schemas) := by
  obtain ⟨ms,rfl⟩ := flatForm flat
  refine ⟨rfl,?_,fun m mem => ?_⟩
  · change ((ms.map fun m => (ns ++ "." ++ m.1,m.2)).map Prod.fst).Nodup
    have keys : (ms.map fun m => (ns ++ "." ++ m.1,m.2)).map Prod.fst = (ms.map Prod.fst).map (ns ++ "." ++ ·) := by
      rw [List.map_map,List.map_map]
      rfl
    rw [keys]
    exact flat.once.map fun a b same => prefixInjective same
  · obtain ⟨o,_,rfl⟩ := List.mem_map.mp mem
    exact prefixNamed word o.1

theorem prefixLookup (word : ∀ c ∈ ns.toList, c.isAlphanum = true ∨ c = '_' ∨ c = '.') (flat : Flat schemas) {name : String} {s : Node} :
    mapGet (prefixKeys ns schemas) name = some s ↔ ∃ own, ns ++ "." ++ own = name ∧ mapGet schemas own = some s := by
  have made := prefixFlat word flat
  obtain ⟨ms,rfl⟩ := flatForm flat
  rw [mapGetMem made]
  change (name,s) ∈ ms.map (fun m => (ns ++ "." ++ m.1,m.2)) ↔ _
  constructor
  · intro mem
    obtain ⟨m,there,same⟩ := List.mem_map.mp mem
    obtain ⟨rfl,rfl⟩ := Prod.mk.inj same
    exact ⟨m.1,rfl,(mapGetMem flat).mpr there⟩
  · rintro ⟨own,rfl,found⟩
    exact List.mem_map.mpr ⟨(own,s),(mapGetMem flat).mp found,rfl⟩

theorem schemasPrefixed (word : ∀ c ∈ ns.toList, c.isAlphanum = true ∨ c = '_' ∨ c = '.') (api : OpenAPI top)
    (found : schemasIn top = some schemas) {after : Node}
    (is : after = edit "components" (edit "schemas" (prefixKeys ns)) top) :
    OpenAPI after ∧ (∀ a b, route after a b = route top a b) ∧
      ∀ a b, component after a b = if a = "schemas" then mapGet (prefixKeys ns schemas) b else component top a b := by
  subst is
  obtain ⟨comps,there,inside⟩ := Option.bind_eq_some_iff.mp found
  have levels := api.components comps there
  have flat := levelFlat levels inside
  have new : mapGet (edit "components" (edit "schemas" (prefixKeys ns)) top) "components" =
      some (edit "schemas" (prefixKeys ns) comps) := by
    rw [mapGetEdit,if_pos rfl,there]
    rfl
  have same {part : String} (other : part ≠ "components") :
      mapGet (edit "components" (edit "schemas" (prefixKeys ns)) top) part = mapGet top part := by
    rw [mapGetEdit,if_neg other]
  refine ⟨⟨flatEdit api.flat,fun n paths => ?_,fun n is => ?_⟩,fun a b => ?_,fun a b => ?_⟩
  · rw [same (by decide)] at paths
    exact api.paths n paths
  · rw [new] at is
    obtain rfl := Option.some.inj is
    refine ⟨flatEdit levels.1,fun m mem => ?_⟩
    have got := (mapGetMem (flatEdit levels.1)).mpr mem
    rw [mapGetEdit] at got
    split at got
    · rename_i key
      rw [key,inside] at got
      exact Option.some.inj got ▸ prefixFlat word flat
    · exact levelFlat levels got
  · unfold route below
    rw [same (by decide)]
  · unfold component below
    rw [new,there,Option.bind_some,Option.bind_some,mapGetEdit]
    by_cases key : a = "schemas"
    · rw [if_pos key,if_pos key,key,inside]
      rfl
    · rw [if_neg key,if_neg key]

theorem componentSchemas (top : Node) (n : String) : component top "schemas" n = (schemasIn top).bind fun s => mapGet s n := by
  unfold component below schemasIn
  cases mapGet top "components" with
  | none => rfl
  | some comps => rfl

theorem prefixedCases (f : Source) :
    (f.prefixed = f.doc ∧ f.renames = [] ∧ ∀ k n s, component f.doc k n = some s → f.placed k n = n) ∨
      ∃ schemas, schemasIn f.doc = some schemas ∧ f.renames = renamed f.ns schemas ∧
        (∀ k n, f.placed k n = if k = "schemas" then f.ns ++ "." ++ n else n) ∧
          f.prefixed = texts f.new (edit "components" (edit "schemas" (prefixKeys f.ns)) f.doc) := by
  by_cases empty : f.ns = ""
  · refine .inl ⟨if_pos empty,if_pos empty,fun k n s _ => if_neg fun both => both.1 empty⟩
  · cases found : schemasIn f.doc with
    | none =>
      refine .inl ⟨?_,?_,fun k n s there => if_neg fun both => ?_⟩
      · rw [Source.prefixed,if_neg empty,prefixSchemas,found]
      · rw [Source.renames,if_neg empty,found]
      · rw [both.2,componentSchemas,found] at there
        cases there
    | some schemas =>
      have renames : f.renames = renamed f.ns schemas := by rw [Source.renames,if_neg empty,found]
      refine .inr ⟨schemas,rfl,renames,fun k n => if_congr (and_iff_right empty) rfl rfl,?_⟩
      rw [Source.prefixed,if_neg empty,prefixSchemas,found]
      exact congrArg (fun r => texts (renameText r) _) renames.symm

theorem newSame {f : Source} (empty : f.renames = []) (v : String) : f.new v = v := by
  rw [Source.new,empty]
  rfl

structure Renamed (f : File) (doc : Node) : Prop where
  api : OpenAPI doc
  route : ∀ a b, route doc a b = (route f.doc a b).map (texts f.new)
  component : ∀ k name s, component doc k name = some s ↔
    ∃ own s', f.placed k own = name ∧ component f.doc k own = some s' ∧ s = texts f.new s'

theorem prefixedIs (f : File) : Renamed f f.prefixed := by
  have fixes := sourceFixes f.toSource
  rcases prefixedCases f.toSource with ⟨doc,empty,stays⟩ | ⟨schemas,found,_,placed,doc⟩
  · have same := newSame empty
    rw [doc]
    refine ⟨f.api,fun a b => ?_,fun k name s => ⟨fun there => ⟨name,s,stays k name s there,there,(textsSame same s).symm⟩,?_⟩⟩
    · cases route f.doc a b with
      | none => rfl
      | some op => exact congrArg some (textsSame same op).symm
    · rintro ⟨own,s',rfl,there,rfl⟩
      rw [stays k own s' there,textsSame same]
      exact there
  · obtain ⟨api,routes,comps⟩ := schemasPrefixed f.word f.api found rfl
    rw [doc]
    refine ⟨apiTexts fixes api,fun a b => ?_,fun k name s => ?_⟩
    · rw [route,belowTexts fixes api api.paths,← routes]
      rfl
    · rw [component,belowTexts fixes api api.components,Option.map_eq_some_iff]
      change (∃ s', component _ k name = some s' ∧ _) ↔ _
      rw [comps]
      by_cases kind : k = "schemas"
      · subst kind
        have flat : Flat schemas := by
          obtain ⟨all,there,inside⟩ := Option.bind_eq_some_iff.mp found
          exact levelFlat (f.api.components all there) inside
        have inside (own : String) : component f.doc "schemas" own = mapGet schemas own := by
          rw [componentSchemas,found]
          rfl
        simp only [if_true,prefixLookup f.word flat,placed,inside]
        constructor
        · rintro ⟨s',⟨own,name,there⟩,rfl⟩
          exact ⟨own,s',name,there,rfl⟩
        · rintro ⟨own,s',name,there,rfl⟩
          exact ⟨s',⟨own,name,there⟩,rfl⟩
      · simp only [if_neg kind,placed]
        constructor
        · rintro ⟨s',there,rfl⟩
          exact ⟨name,s',rfl,there,rfl⟩
        · rintro ⟨own,s',rfl,there,rfl⟩
          exact ⟨s',there,rfl⟩

end Namespaces
section Runs
variable {docs : List Node} {master add top : Node} {f : File} {rest : List File}

structure Joins (docs : List Node) (top : Node) : Prop where
  api : OpenAPI top
  route : ∀ a b, route top a b = docs.findSome? fun d => route d a b
  component : ∀ a b, component top a b = docs.findSome? fun d => component d a b

theorem joinsOne (api : OpenAPI top) : Joins [top] top :=
  ⟨api,fun _ _ => List.findSome?_singleton.symm,fun _ _ => List.findSome?_singleton.symm⟩

theorem joinsNext (joins : Joins docs master) (both : Both master add top) : Joins (docs ++ [add]) top := by
  have last (f : Node → Option Node) : (docs ++ [add]).findSome? f = (docs.findSome? f).or (f add) := by
    rw [List.findSome?_append,List.findSome?_singleton]
  refine ⟨both.api,fun a b => ?_,fun a b => ?_⟩
  · rw [last,both.route,joins.route]
  · rw [last,both.component,joins.component]

theorem joinsFree (joins : Joins docs master) : Free master add ↔ ∀ d ∈ docs, Free d add := by
  constructor
  · intro free d mem a b
    refine (free a b).imp_left fun none => ?_
    rw [joins.route] at none
    exact List.findSome?_eq_none_iff.mp none d mem
  · intro free a b
    cases new : route add a b with
    | none => exact .inr rfl
    | some op =>
      refine .inl ((joins.route a b).trans (List.findSome?_eq_none_iff.mpr fun d mem => ?_))
      exact (free d mem a b).resolve_right fun none => by rw [new] at none; cases none

def Apart (docs : List Node) (rest : List File) : Prop :=
  (∀ f ∈ rest, ∀ d ∈ docs, Free d f.prefixed) ∧ rest.Pairwise fun f g => Free f.prefixed g.prefixed

theorem apartCons : Apart docs (f::rest) ↔ (∀ d ∈ docs, Free d f.prefixed) ∧ Apart (docs ++ [f.prefixed]) rest := by
  unfold Apart
  rw [List.pairwise_cons,List.forall_mem_cons]
  constructor
  · rintro ⟨⟨here,later⟩,next,others⟩
    refine ⟨here,fun g mem d there => ?_,others⟩
    rcases List.mem_append.mp there with old | new
    · exact later g mem d old
    · exact List.mem_singleton.mp new ▸ next g mem
  · rintro ⟨here,later,others⟩
    exact ⟨⟨here,fun g mem d old => later g mem d (List.mem_append_left _ old)⟩,
      fun g mem => later g mem _ (List.mem_append_right _ List.mem_cons_self),others⟩

/- The induction is on the files that are left, and carries what those before were merged to. -/
theorem runRest (joins : Joins docs master) (rest : List File) :
    (Apart docs rest → ∃ top, mergeFiles (some master) (rest.map File.toSource) = .ok (some top) ∧
        Joins (docs ++ rest.map fun f => f.prefixed) top) ∧
      (¬ Apart docs rest → ∃ err, mergeFiles (some master) (rest.map File.toSource) = .error err) := by
  induction rest generalizing docs master with
  | nil =>
    have apart : Apart docs [] := ⟨fun _ mem => absurd mem List.not_mem_nil,List.Pairwise.nil⟩
    refine ⟨fun _ => ⟨master,rfl,?_⟩,fun taken => absurd apart taken⟩
    rwa [List.map_nil,List.append_nil]
  | cons f rest ih =>
    obtain ⟨fine,clash⟩ := mergeDocIs f.name joins.api (prefixedIs f).api
    rw [List.map_cons,mergeFiles,apartCons]
    by_cases free : Free master f.prefixed
    · obtain ⟨next,is,both⟩ := fine free
      obtain ⟨goes,stops⟩ := ih (joinsNext joins both)
      rw [is]
      refine ⟨fun apart => ?_,fun taken => stops fun apart => taken ⟨(joinsFree joins).mp free,apart⟩⟩
      obtain ⟨top,run,all⟩ := goes apart.2
      rw [List.append_assoc] at all
      exact ⟨top,run,all⟩
    · obtain ⟨err,is⟩ := clash free
      rw [is]
      exact ⟨fun apart => absurd ((joinsFree joins).mpr apart.1) free,fun _ => ⟨err,rfl⟩⟩

theorem prefixedFree (f g : File) : Free f.prefixed g.prefixed ↔ Free f.doc g.doc := by
  refine forall₂_congr fun a b => ?_
  rw [(prefixedIs f).route,(prefixedIs g).route,Option.map_eq_none_iff,Option.map_eq_none_iff]

theorem runIs (f : File) (rest : List File) :
    (Separate (f::rest) → ∃ top, mergeFiles none ((f::rest).map File.toSource) = .ok (some top) ∧
        Joins ((f::rest).map fun f => f.prefixed) top) ∧
      (¬ Separate (f::rest) → ∃ err, mergeFiles none ((f::rest).map File.toSource) = .error err) := by
  have same : Apart [f.prefixed] rest ↔ Separate (f::rest) := by
    unfold Apart Separate
    rw [List.pairwise_cons]
    refine and_congr (forall₂_congr fun g _ => ?_) ?_
    · rw [List.forall_mem_singleton]
      exact prefixedFree f g
    · exact ⟨fun all => all.imp (prefixedFree _ _).mp,fun all => all.imp (prefixedFree _ _).mpr⟩
  rw [← same]
  exact runRest (joinsOne (prefixedIs f).api) rest

end Runs
end DevkitCommon.Apidoc.Directory
