import DevkitCommon.Apidoc.Directory

/-! One document into another: a route that both have is refused, and otherwise the outcome has the
routes and the components of both, the first one where both have a name. -/
namespace DevkitCommon.Apidoc.Directory
open DevkitCommon.Yaml DevkitCommon.Pairs

section Flats
variable {n v : Node} {k key : String} {f : Node → Node}

theorem flatForm (flat : Flat n) : ∃ ms, n = .mapping ms := mappingForm flat.mapping

theorem mapGetMem (flat : Flat n) : mapGet n k = some v ↔ (k,v) ∈ entries n := by
  obtain ⟨ms,rfl⟩ := flatForm flat
  exact lookupIff flat.once

theorem mapGetAppend (flat : Flat n) (j : String) : mapGet (append k v n) j = (mapGet n j).or (if j = k then some v else none) := by
  obtain ⟨ms,rfl⟩ := flatForm flat
  change (ms ++ [(k,v)]).lookup j = (ms.lookup j).or _
  rw [List.lookup_append,List.lookup_cons]
  by_cases same : j = k
  · rw [if_pos same,same,beq_self_eq_true]
  · rw [if_neg same,beq_eq_false_iff_ne.mpr same]
    rfl

theorem entriesAppend (flat : Flat n) : entries (append k v n) = entries n ++ [(k,v)] := by
  obtain ⟨ms,rfl⟩ := flatForm flat
  rfl

theorem flatAppend (flat : Flat n) (absent : mapGet n k = none) (named : Named k) : Flat (append k v n) := by
  have same := entriesAppend (k := k) (v := v) flat
  obtain ⟨ms,rfl⟩ := flatForm flat
  refine ⟨rfl,?_,?_⟩
  · rw [same,List.map_append]
    refine List.Nodup.append flat.once (List.nodup_singleton _) ?_
    intro j old new
    rw [List.mem_singleton.mp new] at old
    exact lookupAbsent.mp absent old
  · intro m mem
    rw [same] at mem
    rcases List.mem_append.mp mem with old | new
    · exact flat.named m old
    · exact List.mem_singleton.mp new ▸ named

theorem editKeys (ms : List (String × Node)) : (editFirst key f ms).map Prod.fst = ms.map Prod.fst := by
  induction ms with
  | nil => rfl
  | cons m ms ih =>
    rw [editFirst]
    split
    · rfl
    · rw [List.map_cons,List.map_cons,ih]

theorem flatEdit (flat : Flat n) : Flat (edit key f n) := by
  obtain ⟨ms,rfl⟩ := flatForm flat
  have keys : (entries (edit key f (.mapping ms))).map Prod.fst = ms.map Prod.fst := editKeys ms
  refine ⟨rfl,by rw [keys]; exact flat.once,fun m mem => ?_⟩
  have there : m.1 ∈ ms.map Prod.fst := keys ▸ List.mem_map_of_mem mem
  obtain ⟨o,mem',same⟩ := List.mem_map.mp there
  exact same ▸ flat.named o mem'

theorem mapGetPut (flat : Flat n) (j : String) : mapGet (put key v n) j = if j = key then some v else mapGet n j := by
  unfold put
  cases found : mapGet n key with
  | some w =>
    dsimp only
    rw [mapGetEdit]
    by_cases same : j = key
    · rw [if_pos same,if_pos same,same,found]
      rfl
    · rw [if_neg same,if_neg same]
  | none =>
    dsimp only
    rw [mapGetAppend flat]
    by_cases same : j = key
    · rw [if_pos same,if_pos same,same,found]
      rfl
    · rw [if_neg same,if_neg same,Option.or_none]

theorem flatPut (flat : Flat n) (named : Named key) : Flat (put key v n) := by
  unfold put
  cases found : mapGet n key with
  | some w => exact flatEdit flat
  | none => exact flatAppend flat found named

theorem flatEmpty : Flat (.mapping []) := ⟨rfl,List.nodup_nil,fun _ mem => absurd mem List.not_mem_nil⟩

end Flats
section Levels
variable {n m v : Node} {k key a b : String} {es : List (String × Node)}

structure Members (es : List (String × Node)) : Prop where
  once : (es.map Prod.fst).Nodup
  named : ∀ e ∈ es, Named e.1

theorem flatMembers (flat : Flat n) : Members (entries n) := ⟨flat.once,flat.named⟩

theorem membersTail {e : String × Node} (members : Members (e::es)) : Named e.1 ∧ es.lookup e.1 = none ∧ Members es := by
  obtain ⟨new,more⟩ := List.nodup_cons.mp members.once
  exact ⟨members.named e List.mem_cons_self,lookupAbsent.mpr new,more,fun d mem => members.named d (List.mem_cons_of_mem e mem)⟩

theorem addAllFlat (flat : Flat n) (members : Members es) : Flat (addAll es n) := by
  induction es generalizing n with
  | nil => exact flat
  | cons e es ih =>
    obtain ⟨named,_,more⟩ := membersTail members
    rw [addAll]
    cases found : mapGet n e.1 with
    | some old => exact ih flat more
    | none => exact ih (flatAppend flat found named) more

theorem addAllLookup (flat : Flat n) (members : Members es) (k : String) : mapGet (addAll es n) k = (mapGet n k).or (es.lookup k) := by
  induction es generalizing n with
  | nil => exact (Option.or_none).symm
  | cons e es ih =>
    obtain ⟨key,v⟩ := e
    obtain ⟨named,last,more⟩ := membersTail members
    rw [addAll,List.lookup_cons]
    cases found : mapGet n key with
    | some old =>
      dsimp only
      rw [ih flat more]
      cases same : k == key with
      | true =>
        rw [beq_iff_eq.mp same,found]
        rfl
      | false => rfl
    | none =>
      dsimp only
      rw [ih (flatAppend flat found named) more,mapGetAppend flat]
      cases same : k == key with
      | true =>
        rw [beq_iff_eq.mp same,found,if_pos rfl]
        rfl
      | false => rw [if_neg (beq_eq_false_iff_ne.mp same),Option.or_none]

def inner (n : Node) (a b : String) : Option Node := (mapGet n a).bind fun m => mapGet m b

theorem levelFlat (levels : Levels n) (found : mapGet n k = some m) : Flat m :=
  levels.2 (k,m) ((mapGetMem levels.1).mp found)

theorem levelsEdit (levels : Levels n) (flat : Flat m) : Levels (edit key (fun _ => m) n) := by
  refine ⟨flatEdit levels.1,fun e mem => ?_⟩
  have found := (mapGetMem (flatEdit levels.1)).mpr mem
  rw [mapGetEdit] at found
  split at found
  · obtain ⟨_,_,same⟩ := Option.map_eq_some_iff.mp found
    exact same ▸ flat
  · exact levelFlat levels found

theorem levelsAppend (levels : Levels n) (absent : mapGet n key = none) (named : Named key) (flat : Flat m) :
    Levels (append key m n) := by
  refine ⟨flatAppend levels.1 absent named,fun e mem => ?_⟩
  rw [entriesAppend levels.1] at mem
  rcases List.mem_append.mp mem with old | new
  · exact levels.2 e old
  · exact List.mem_singleton.mp new ▸ flat

structure Kinds (es : List (String × Node)) : Prop where
  members : Members es
  flat : ∀ e ∈ es, Flat e.2

theorem levelsKinds (levels : Levels n) : Kinds (entries n) := ⟨flatMembers levels.1,levels.2⟩

theorem kindsTail {e : String × Node} (kinds : Kinds (e::es)) : Named e.1 ∧ es.lookup e.1 = none ∧ Flat e.2 ∧ Kinds es := by
  obtain ⟨named,last,more⟩ := membersTail kinds.members
  exact ⟨named,last,kinds.flat e List.mem_cons_self,more,fun d mem => kinds.flat d (List.mem_cons_of_mem e mem)⟩

theorem innerStep {joined : Node} (levels : Levels n) (named : Named key) (flat : Flat v)
    (is : joined = match mapGet n key with
      | some dst => edit key (fun _ => addAll (entries v) dst) n
      | none => append key v n) :
    Levels joined ∧ ∀ a b, inner joined a b = (inner n a b).or (if a = key then mapGet v b else none) := by
  cases found : mapGet n key with
  | some dst =>
    rw [found] at is
    subst is
    have old : Flat dst := levelFlat levels found
    refine ⟨levelsEdit levels (addAllFlat old (flatMembers flat)),fun a b => ?_⟩
    unfold inner
    rw [mapGetEdit]
    by_cases same : a = key
    · subst same
      rw [if_pos rfl,if_pos rfl,found]
      exact addAllLookup old (flatMembers flat) b
    · rw [if_neg same,if_neg same,Option.or_none]
  | none =>
    rw [found] at is
    subst is
    refine ⟨levelsAppend levels found named flat,fun a b => ?_⟩
    unfold inner
    rw [mapGetAppend levels.1]
    by_cases same : a = key
    · subst same
      rw [if_pos rfl,if_pos rfl,found]
      rfl
    · rw [if_neg same,if_neg same,Option.or_none,Option.or_none]

theorem innerNone (absent : es.lookup a = none) (b : String) : inner (.mapping es) a b = none := by
  unfold inner
  change ((es.lookup a).bind _) = none
  rw [absent]
  rfl

theorem innerCons {e : String × Node} (kinds : Kinds (e::es)) (a b : String) :
    inner (.mapping (e::es)) a b = (if a = e.1 then mapGet e.2 b else none).or (inner (.mapping es) a b) := by
  obtain ⟨key,v⟩ := e
  obtain ⟨_,last,_,more⟩ := kindsTail kinds
  by_cases same : a = key
  · subst same
    rw [if_pos rfl,innerNone last,Option.or_none]
    unfold inner
    change (((a,v)::es).lookup a).bind _ = _
    rw [List.lookup_cons,beq_self_eq_true]
    rfl
  · rw [if_neg same]
    unfold inner
    change (((key,v)::es).lookup a).bind _ = _
    rw [List.lookup_cons,beq_eq_false_iff_ne.mpr same]
    rfl

theorem mergeComponentsInner (levels : Levels n) (kinds : Kinds es) : Levels (mergeComponents es n) ∧
    ∀ a b, inner (mergeComponents es n) a b = (inner n a b).or (inner (.mapping es) a b) := by
  induction es generalizing n with
  | nil => exact ⟨levels,fun a b => (Option.or_none).symm⟩
  | cons e es ih =>
    obtain ⟨named,_,flat,more⟩ := kindsTail kinds
    obtain ⟨joined,step⟩ := innerStep levels named flat rfl
    obtain ⟨whole,both⟩ := ih joined more
    refine ⟨whole,fun a b => ?_⟩
    rw [innerCons kinds,← Option.or_assoc,← step a b]
    exact both a b

def Distinct (n m : Node) : Prop := ∀ a b, inner n a b = none ∨ inner m a b = none

theorem mergeOpsIs (file path : String) (flat : Flat n) (members : Members es) :
    ((∀ e ∈ es, mapGet n e.1 = none) → mergeOps file path es n = .ok (addAll es n)) ∧
      ((∃ e ∈ es, mapGet n e.1 ≠ none) → ∃ err, mergeOps file path es n = .error err) := by
  induction es generalizing n with
  | nil => exact ⟨fun _ => rfl,fun ⟨_,mem,_⟩ => absurd mem List.not_mem_nil⟩
  | cons e es ih =>
    obtain ⟨method,op⟩ := e
    obtain ⟨named,last,more⟩ := membersTail members
    cases found : mapGet n method with
    | some old =>
      refine ⟨fun free => ?_,fun _ => ?_⟩
      · rw [free _ List.mem_cons_self] at found
        cases found
      · rw [mergeOps,found]
        exact ⟨_,rfl⟩
    | none =>
      rw [mergeOps,addAll,found]
      dsimp only
      obtain ⟨fine,clash⟩ := ih (flatAppend (v := op) flat found named) more
      have later {d : String × Node} (mem : d ∈ es) : mapGet (append method op n) d.1 = mapGet n d.1 := by
        have there : d.1 ∈ es.map Prod.fst := List.mem_map_of_mem mem
        have other : d.1 ≠ method := fun same => lookupAbsent.mp last (same ▸ there)
        rw [mapGetAppend flat,if_neg other,Option.or_none]
      refine ⟨fun free => fine fun d mem => (later mem).trans (free d (List.mem_cons_of_mem _ mem)),fun ⟨d,mem,taken⟩ => ?_⟩
      rcases List.mem_cons.mp mem with rfl | mem
      · exact absurd found taken
      · exact clash ⟨d,mem,(later mem).symm ▸ taken⟩

theorem mergePathsIs (file : String) (levels : Levels n) (kinds : Kinds es) :
    (Distinct n (.mapping es) → mergePaths file es n = .ok (mergeComponents es n)) ∧
      (¬ Distinct n (.mapping es) → ∃ err, mergePaths file es n = .error err) := by
  induction es generalizing n with
  | nil => exact ⟨fun _ => rfl,fun apart => absurd (fun a b => .inr rfl) apart⟩
  | cons e es ih =>
    obtain ⟨path,ops⟩ := e
    obtain ⟨named,last,flat,more⟩ := kindsTail kinds
    obtain ⟨joined,step⟩ := innerStep levels named flat rfl
    obtain ⟨fine,clash⟩ := ih joined more
    have here (b : String) : inner (.mapping ((path,ops)::es)) path b = mapGet ops b := by
      rw [innerCons kinds,if_pos rfl,innerNone last,Option.or_none]
    have there {a : String} (other : a ≠ path) (b : String) :
        inner (.mapping ((path,ops)::es)) a b = inner (.mapping es) a b := by
      rw [innerCons kinds,if_neg other,Option.none_or]
    have split : Distinct n (.mapping ((path,ops)::es)) ↔ (∀ b, inner n path b = none ∨ mapGet ops b = none) ∧
        ∀ a b, a ≠ path → inner n a b = none ∨ inner (.mapping es) a b = none := by
      refine ⟨fun apart => ⟨fun b => here b ▸ apart path b,fun a b other => there other b ▸ apart a b⟩,fun both a b => ?_⟩
      by_cases same : a = path
      · subst same
        rw [here]
        exact both.1 b
      · rw [there same]
        exact both.2 a b same
    cases found : mapGet n path with
    | none =>
      rw [mergePaths,mergeComponents]
      simp only [found] at fine clash step ⊢
      have rest : Distinct n (.mapping ((path,ops)::es)) ↔ Distinct (append path ops n) (.mapping es) := by
        rw [split]
        refine ⟨fun both a b => ?_,fun apart => ⟨fun b => .inl (by rw [inner,found]; rfl),fun a b other => ?_⟩⟩
        · by_cases same : a = path
          · exact .inr (same ▸ innerNone last b)
          · rw [step a b,if_neg same,Option.or_none]
            exact both.2 a b same
        · have one := apart a b
          rwa [step a b,if_neg other,Option.or_none] at one
      exact ⟨fun apart => fine (rest.mp apart),fun taken => clash fun apart => taken (rest.mpr apart)⟩
    | some dst =>
      rw [mergePaths,mergeComponents]
      simp only [found] at fine clash step ⊢
      have old : Flat dst := levelFlat levels found
      obtain ⟨joins,refuses⟩ := mergeOpsIs file path old (flatMembers flat)
      have at' (b : String) : inner n path b = mapGet dst b := by rw [inner,found]; rfl
      by_cases free : ∀ e ∈ entries ops, mapGet dst e.1 = none
      · rw [joins free]
        have rest : Distinct n (.mapping ((path,ops)::es)) ↔
            Distinct (edit path (fun _ => addAll (entries ops) dst) n) (.mapping es) := by
          rw [split]
          refine ⟨fun both a b => ?_,fun apart => ⟨fun b => ?_,fun a b other => ?_⟩⟩
          · by_cases same : a = path
            · exact .inr (same ▸ innerNone last b)
            · rw [step a b,if_neg same,Option.or_none]
              exact both.2 a b same
          · rw [at' b]
            cases op : mapGet ops b with
            | none => exact .inr rfl
            | some v => exact .inl (free (b,v) ((mapGetMem flat).mp op))
          · have one := apart a b
            rwa [step a b,if_neg other,Option.or_none] at one
        exact ⟨fun apart => fine (rest.mp apart),fun taken => clash fun apart => taken (rest.mpr apart)⟩
      · obtain ⟨e,mem,taken⟩ : ∃ e ∈ entries ops, mapGet dst e.1 ≠ none := by
          by_contra none
          exact free fun e mem => by_contra fun taken => none ⟨e,mem,taken⟩
        obtain ⟨err,is⟩ := refuses ⟨e,mem,taken⟩
        rw [is]
        refine ⟨fun apart => ?_,fun _ => ⟨err,rfl⟩⟩
        rcases (split.mp apart).1 e.1 with one | other
        · exact absurd ((at' e.1).symm.trans one) taken
        · rw [(mapGetMem flat).mpr mem] at other
          cases other

end Levels
section Documents
variable {top master add v : Node} {key file : String}

theorem belowInner (top : Node) (part a b : String) : below top part a b = (mapGet top part).bind fun n => inner n a b := rfl

theorem levelsEmpty : Levels (.mapping []) := ⟨flatEmpty,fun _ mem => absurd mem List.not_mem_nil⟩

theorem partLevels {part : String} (levels : ∀ n, mapGet top part = some n → Levels n) :
    Levels ((mapGet top part).getD (.mapping [])) ∧ ∀ a b, inner ((mapGet top part).getD (.mapping [])) a b = below top part a b := by
  rw [show below top part = fun a b => (mapGet top part).bind fun n => inner n a b from rfl]
  cases found : mapGet top part with
  | none => exact ⟨levelsEmpty,fun a b => rfl⟩
  | some n => exact ⟨levels n found,fun a b => rfl⟩

theorem belowPut (api : OpenAPI top) (part a b : String) :
    below (put key v top) part a b = if part = key then inner v a b else below top part a b := by
  rw [belowInner,mapGetPut api.flat]
  split
  · rfl
  · rfl

theorem apiPut (api : OpenAPI top) (named : Named key) (levels : key = "paths" ∨ key = "components" → Levels v) :
    OpenAPI (put key v top) := by
  refine ⟨flatPut api.flat named,fun n is => ?_,fun n is => ?_⟩
  · rw [mapGetPut api.flat] at is
    split at is
    · rename_i same
      exact Option.some.inj is ▸ levels (.inl same.symm)
    · exact api.paths n is
  · rw [mapGetPut api.flat] at is
    split at is
    · rename_i same
      exact Option.some.inj is ▸ levels (.inr same.symm)
    · exact api.components n is

structure Both (master add top : Node) : Prop where
  api : OpenAPI top
  route : ∀ a b, route top a b = (route master a b).or (route add a b)
  component : ∀ a b, component top a b = (component master a b).or (component add a b)

theorem namedParts : Named "paths" ∧ Named "components" ∧ Named "tags" := by
  unfold Named
  decide +kernel

theorem joinComponents (api : OpenAPI master) (more : OpenAPI add) {top : Node}
    (is : top = match mapGet add "components" with
      | none => master
      | some ac => put "components" (mergeComponents (entries ac) ((mapGet master "components").getD (.mapping []))) master) :
    OpenAPI top ∧ (∀ a b, route top a b = route master a b) ∧
      ∀ a b, component top a b = (component master a b).or (component add a b) := by
  have none' (found : mapGet add "components" = none) (a b : String) : component add a b = none := by
    rw [component,belowInner,found]
    rfl
  cases found : mapGet add "components" with
  | none =>
    rw [found] at is
    subst is
    exact ⟨api,fun a b => rfl,fun a b => by rw [none' found,Option.or_none]⟩
  | some ac =>
    rw [found] at is
    subst is
    obtain ⟨levels,old⟩ := partLevels api.components
    have other := more.components ac found
    obtain ⟨joined,both⟩ := mergeComponentsInner levels (levelsKinds other)
    refine ⟨apiPut api namedParts.2.1 fun _ => joined,fun a b => ?_,fun a b => ?_⟩
    · rw [route,belowPut api,if_neg (by decide)]
      rfl
    · rw [component,belowPut api,if_pos rfl,both,old,component,component,belowInner add,found]
      obtain ⟨es,rfl⟩ := flatForm other.1
      rfl

theorem joinTags (add : Node) (api : OpenAPI master) {top : Node} (is : top = match mapGet add "tags" with
      | none => master
      | some at' => put "tags" (mergeTags ((mapGet master "tags").getD (.sequence [])) at') master) :
    OpenAPI top ∧ (∀ a b, route top a b = route master a b) ∧ ∀ a b, component top a b = component master a b := by
  cases found : mapGet add "tags" with
  | none =>
    rw [found] at is
    subst is
    exact ⟨api,fun a b => rfl,fun a b => rfl⟩
  | some tags =>
    rw [found] at is
    subst is
    refine ⟨apiPut api namedParts.2.2 fun is => ?_,fun a b => ?_,fun a b => ?_⟩
    · rcases is with is | is <;> exact absurd is (by decide)
    · rw [route,belowPut api,if_neg (by decide)]
      rfl
    · rw [component,belowPut api,if_neg (by decide)]
      rfl

theorem joinPaths (file : String) (api : OpenAPI master) (more : OpenAPI add) {ap : Node} (found : mapGet add "paths" = some ap) :
    (Free master add → ∃ mp, mergePaths file (entries ap) ((mapGet master "paths").getD (.mapping [])) = .ok mp ∧
        OpenAPI (put "paths" mp master) ∧ (∀ a b, route (put "paths" mp master) a b = (route master a b).or (route add a b)) ∧
          ∀ a b, component (put "paths" mp master) a b = component master a b) ∧
      (¬ Free master add → ∃ err, mergePaths file (entries ap) ((mapGet master "paths").getD (.mapping [])) = .error err) := by
  obtain ⟨levels,old⟩ := partLevels api.paths
  have other := more.paths ap found
  obtain ⟨joined,both⟩ := mergeComponentsInner levels (levelsKinds other)
  obtain ⟨fine,clash⟩ := mergePathsIs file levels (levelsKinds other)
  have new (a b : String) : inner (.mapping (entries ap)) a b = route add a b := by
    rw [route,belowInner,found]
    obtain ⟨es,rfl⟩ := flatForm other.1
    rfl
  have same : Distinct ((mapGet master "paths").getD (.mapping [])) (.mapping (entries ap)) ↔ Free master add :=
    forall₂_congr fun a b => by rw [old,new]; rfl
  refine ⟨fun free => ⟨_,fine (same.mpr free),apiPut api namedParts.1 fun _ => joined,fun a b => ?_,fun a b => ?_⟩,
    fun taken => clash fun apart => taken (same.mp apart)⟩
  · rw [route,belowPut api,if_pos rfl,both,old,new]
    rfl
  · rw [component,belowPut api,if_neg (by decide)]
    rfl

theorem mergeDocIs (file : String) (api : OpenAPI master) (more : OpenAPI add) :
    (Free master add → ∃ top, mergeDoc master add file = .ok top ∧ Both master add top) ∧
      (¬ Free master add → ∃ err, mergeDoc master add file = .error err) := by
  have rest {m : Node} (api : OpenAPI m) : ∃ top, (let m := match mapGet add "components" with
      | none => m
      | some ac => put "components" (mergeComponents (entries ac) ((mapGet m "components").getD (.mapping []))) m
    (.ok (match mapGet add "tags" with
      | none => m
      | some at' => put "tags" (mergeTags ((mapGet m "tags").getD (.sequence [])) at') m) : Except String Node)) = .ok top ∧
      OpenAPI top ∧ (∀ a b, route top a b = route m a b) ∧ ∀ a b, component top a b = (component m a b).or (component add a b) := by
    obtain ⟨api',routes,comps⟩ := joinComponents api more rfl
    obtain ⟨api'',routes',comps'⟩ := joinTags add api' rfl
    exact ⟨_,rfl,api'',fun a b => (routes' a b).trans (routes a b),fun a b => (comps' a b).trans (comps a b)⟩
  unfold mergeDoc
  cases found : mapGet add "paths" with
  | none =>
    have none' (a b : String) : route add a b = none := by
      rw [route,belowInner,found]
      rfl
    obtain ⟨top,is,api',routes,comps⟩ := rest api
    exact ⟨fun _ => ⟨top,is,api',fun a b => by rw [routes,none',Option.or_none],comps⟩,
      fun taken => absurd (fun a b => .inr (none' a b)) taken⟩
  | some ap =>
    obtain ⟨fine,clash⟩ := joinPaths file api more found
    refine ⟨fun free => ?_,fun taken => ?_⟩
    · obtain ⟨mp,is,api',routes,comps⟩ := fine free
      obtain ⟨top,same,api'',routes',comps'⟩ := rest api'
      refine ⟨top,?_,api'',fun a b => (routes' a b).trans (routes a b),fun a b => by rw [comps',comps]⟩
      dsimp only
      rw [is]
      exact same
    · obtain ⟨err,is⟩ := clash taken
      dsimp only
      rw [is]
      exact ⟨err,rfl⟩

end Documents
end DevkitCommon.Apidoc.Directory
