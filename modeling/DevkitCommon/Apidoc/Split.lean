import Mathlib.Data.List.Forall2
import Mathlib.Data.List.Nodup
import DevkitCommon.Apidoc.Marks

/-! The split of the schemas that requests and responses share: what each name stands for
afterwards, by its place on either side. -/
namespace DevkitCommon.Apidoc
open DevkitCommon.Yaml DevkitCommon.Reach DevkitCommon.Pairs

section Lookups

theorem mapGetEdit (key : String) (f : Node → Node) (n : Node) (k : String) :
    mapGet (edit key f n) k = if k = key then (mapGet n k).map f else mapGet n k := by
  unfold mapGet
  rw [entriesEdit,lookupEdit]

theorem mapGetEach (f : String → Node → Node) (n : Node) (k : String) : mapGet (each f n) k = (mapGet n k).map (f k) := by
  unfold mapGet
  rw [entriesEach]
  exact lookupMap (entries n) f k

theorem graphLookup (schemas : Node) (n : String) : (graph schemas).lookup n = (mapGet schemas n).map refsIn :=
  lookupMap (entries schemas) (fun _ => refsIn) n

theorem graphFound {schemas : Node} {n : String} {more : List String} (found : (graph schemas).lookup n = some more) :
    ∃ schema, mapGet schemas n = some schema ∧ more = refsIn schema := by
  rw [graphLookup] at found
  obtain ⟨schema,here,rfl⟩ := Option.map_eq_some_iff.mp found
  exact ⟨schema,here,rfl⟩

theorem lookupKeyed {β : Type} {l : List String} {g : String → String} {h : String → β}
    (apart : ∀ a ∈ l, ∀ b ∈ l, g a = g b → a = b) {n : String} (mem : n ∈ l) :
    (l.map (fun n => (g n,h n))).lookup (g n) = some (h n) := by
  induction l with
  | nil => exact absurd mem List.not_mem_nil
  | cons a l ih =>
    rw [List.map_cons,List.lookup_cons]
    by_cases same : g n = g a
    · obtain rfl := apart n mem a List.mem_cons_self same
      simp only [BEq.rfl]
    · have other : (g n == g a) = false := beq_eq_false_iff_ne.mpr same
      simp only [other]
      refine ih (fun a in' b in'' => apart a (List.mem_cons_of_mem _ in') b (List.mem_cons_of_mem _ in'')) ?_
      exact (List.mem_cons.mp mem).resolve_left (fun e => same (congrArg g e))

end Lookups
section Names
variable {schemas : Node}

theorem freeNameFresh (c : String) : mapGet schemas (freeName schemas c) = none := by
  fun_induction freeName schemas c with
  | case1 c taken ih => exact ih
  | case2 c free => exact Option.not_isSome_iff_eq_none.mp free

theorem freeNameForm (c : String) : ∃ i, (freeName schemas c).toList = c.toList ++ List.replicate i '_' := by
  fun_induction freeName schemas c with
  | case1 c taken ih =>
    obtain ⟨i,form⟩ := ih
    refine ⟨i+1,?_⟩
    rw [form,String.toList_append,List.append_assoc]
    rfl
  | case2 c free => exact ⟨0,(List.append_nil _).symm⟩

theorem suffixEnd (cs : List Char) (i : Nat) :
    ((cs ++ "Request".toList ++ List.replicate i '_').reverse.takeWhile (fun c => c == '_')).length = i := by
  rw [List.reverse_append,List.reverse_replicate,List.reverse_append,
    List.takeWhile_append_of_pos (fun c mem => beq_iff_eq.mpr (List.eq_of_mem_replicate mem)),List.length_append,
    List.length_replicate]
  have stop : ("Request".toList.reverse ++ cs.reverse).takeWhile (fun c => c == '_') = [] := rfl
  rw [stop]
  rfl

theorem freeNameApart {a b : String} (same : freeName schemas (a ++ "Request") = freeName schemas (b ++ "Request")) :
    a = b := by
  obtain ⟨i,first⟩ := @freeNameForm schemas (a ++ "Request")
  obtain ⟨j,second⟩ := @freeNameForm schemas (b ++ "Request")
  rw [same,second,String.toList_append,String.toList_append] at first
  have ends := congrArg (fun cs : List Char => (cs.reverse.takeWhile (fun c => c == '_')).length) first
  simp only [suffixEnd] at ends
  subst ends
  have heads := List.append_cancel_right (List.append_cancel_right first)
  exact String.toList_inj.mp heads.symm

theorem renamesLookup {top : Node} {request : List String} (n : String) :
    (renames top schemas request).lookup n =
      if n ∈ request ∧ n ∈ reachable top schemas "responses" then some (freeName schemas (n ++ "Request")) else none := by
  unfold renames
  dsimp only
  induction request with
  | nil => simp only [List.filter_nil,List.map_nil,List.lookup_nil,List.not_mem_nil,false_and,if_false]
  | cons a request ih =>
    rw [List.filter_cons]
    by_cases shared : a ∈ reachable top schemas "responses"
    · rw [if_pos (decide_eq_true shared),List.map_cons,List.lookup_cons]
      by_cases same : n = a
      · subst same
        simp only [BEq.rfl,List.mem_cons,true_or,shared,and_self,if_true]
      · have other : (n == a) = false := beq_eq_false_iff_ne.mpr same
        simp only [other,ih,List.mem_cons,same,false_or]
    · rw [if_neg (by rw [decide_eq_true_iff]; exact shared),ih]
      by_cases same : n = a
      · subst same
        simp only [shared,and_false]
      · simp only [List.mem_cons,same,false_or]

end Names
section Reaching
variable {top : Node}

theorem rootsReached {graph : List (String × List String)} {roots roots' : List String} (sub : ∀ n ∈ roots, n ∈ roots')
    {n : String} (reached : Reached graph roots n) : Reached graph roots' n := by
  induction reached with
  | root mem found => exact .root (sub _ mem) found
  | next _ found mem there ih => exact .next ih found mem there

theorem reachableIff (schemas : Node) (member n : String) :
    n ∈ reachable top schemas member ↔ Reached (graph schemas) (rootRefs top member) n :=
  (reachIff n).trans ⟨rootsReached (fun _ => List.mem_reverse.mp),rootsReached (fun _ => List.mem_reverse.mpr)⟩

theorem reachedFound {schemas : Node} {roots : List String} {n : String} (reached : Reached (graph schemas) roots n) :
    ∃ schema, mapGet schemas n = some schema := by
  cases reached with
  | root _ found => exact (graphFound found).imp (fun _ both => both.1)
  | next _ _ _ there => exact (graphFound there).imp (fun _ both => both.1)

theorem rootsMem {member n : String} : n ∈ rootRefs top member ↔
    ∃ op ∈ operations top, ∃ body, mapGet op.2.2 member = some body ∧ n ∈ refsIn body := by
  unfold rootRefs
  rw [List.mem_flatMap]
  refine exists_congr (fun op => and_congr_right' ?_)
  unfold memberRefs
  constructor
  · intro mem
    split at mem
    · rename_i body found
      exact ⟨body,found,mem⟩
    · exact absurd mem List.not_mem_nil
  · rintro ⟨body,found,mem⟩
    rw [found]
    exact mem

theorem entryBlank {n : Node} {m : String × Node} (mem : m ∈ entries n) : n.value = "" := by
  cases n with
  | scalar v => exact absurd mem List.not_mem_nil
  | sequence items => rfl
  | mapping members => rfl

theorem bodyWithin {G : String → Prop} (all : Within G top) {op : String × String × Node} (mem : op ∈ operations top)
    {member : String} {body : Node} (found : mapGet op.2.2 member = some body) (plain : member ≠ "$ref") :
    Within G body := by
  unfold operations at mem
  split at mem
  · exact absurd mem List.not_mem_nil
  · rename_i paths here
    obtain ⟨path,inPaths,inOps⟩ := List.mem_flatMap.mp mem
    obtain ⟨m,inPath,rfl⟩ := List.mem_map.mp inOps
    have pathsWithin := entriesWithin all here (by decide)
    have itemWithin := entryWithin pathsWithin (k := path.1) (v := path.2) inPaths (.inr (entryBlank inPath))
    have opWithin := entryWithin itemWithin (k := m.1) (v := m.2) inPath (.inr (entryBlank (lookupMem found)))
    exact entriesWithin opWithin found plain

end Reaching
section Folds
variable {rename : List (String × String)}

mutual
theorem rewriteNone (n : Node) : rewriteRefs [] n = n := by
  cases n with
  | scalar v => rfl
  | sequence items => rw [rewriteRefs,rewriteNoneItems]
  | mapping members => rw [rewriteRefs,rewriteNoneMembers]
theorem rewriteNoneItems (items : List Node) : rewriteItems [] items = items := by
  cases items with
  | nil => rfl
  | cons n rest => rw [rewriteItems,rewriteNone n,rewriteNoneItems rest]
theorem rewriteNoneMembers (members : List (String × Node)) : rewriteMembers [] members = members := by
  cases members with
  | nil => rfl
  | cons m rest =>
    obtain ⟨k,v⟩ := m
    rw [rewriteMembers,rewriteNoneMembers rest,rewriteNone v]
    split
    · rfl
    · rfl
end

theorem editsLookup {f : Node → Node} {names : List String} (once : names.Nodup) (schemas : Node) (k : String) :
    mapGet (names.foldl (fun schemas name => edit name f schemas) schemas) k =
      if k ∈ names then (mapGet schemas k).map f else mapGet schemas k := by
  induction names generalizing schemas with
  | nil => simp only [List.foldl_nil,List.not_mem_nil,if_false]
  | cons a names ih =>
    obtain ⟨out,rest⟩ := List.nodup_cons.mp once
    rw [List.foldl_cons,ih rest,mapGetEdit]
    by_cases same : k = a
    · subst same
      simp only [out,if_false,if_true,List.mem_cons,true_or]
    · simp only [same,if_false,List.mem_cons,false_or]

theorem editsInside {f : Node → Node} {G : String → Prop} (kept : ∀ v, (f v).value = v.value)
    (inside : ∀ v, Within G v → Within G (f v)) (names : List String) {schemas : Node} (before : Within G schemas) :
    Within G (names.foldl (fun schemas name => edit name f schemas) schemas) := by
  induction names generalizing schemas with
  | nil => exact before
  | cons a names ih => exact ih (withinEdit (.inr kept) inside before)

theorem editsMapping {f : Node → Node} (names : List String) (ms : List (String × Node)) :
    ∃ ms', names.foldl (fun schemas name => edit name f schemas) (.mapping ms) = .mapping ms' ∧
      ms'.map Prod.fst = ms.map Prod.fst := by
  have keys : ∀ key (ms : List (String × Node)), (editFirst key f ms).map Prod.fst = ms.map Prod.fst := by
    intro key ms
    induction ms with
    | nil => rfl
    | cons m ms ih =>
      obtain ⟨k,v⟩ := m
      rw [editFirst]
      split
      · rfl
      · rw [List.map_cons,ih,List.map_cons]
  induction names generalizing ms with
  | nil => exact ⟨ms,rfl,rfl⟩
  | cons a names ih =>
    obtain ⟨ms',made,same⟩ := ih (editFirst a f ms)
    exact ⟨ms',made,same.trans (keys a ms)⟩

def copyOf (rename : List (String × String)) (ms : List (String × Node)) (n : String) : String × Node :=
  ((rename.lookup n).getD n,rewriteRefs rename ((ms.lookup n).getD cut))

theorem copiesMade {ms : List (String × Node)} {names : List String}
    (known : ∀ n ∈ names, (∃ c, rename.lookup n = some c) ∧ ∃ schema, ms.lookup n = some schema)
    (extra : List (String × Node)) (s : Split) (base : s.schemas = .mapping (ms ++ extra)) :
    (names.foldl (copySchema rename) s).schemas = .mapping (ms ++ extra ++ names.map (copyOf rename ms)) ∧
      (names.foldl (copySchema rename) s).top = s.top := by
  induction names generalizing extra s with
  | nil => exact ⟨by rw [List.foldl_nil,base,List.map_nil,List.append_nil],rfl⟩
  | cons n names ih =>
    obtain ⟨⟨c,named⟩,schema,found⟩ := known n List.mem_cons_self
    have here : mapGet s.schemas n = some schema := by
      rw [base]
      exact lookupBefore found extra
    have made : copySchema rename s n = ⟨s.top,.mapping (ms ++ (extra ++ [copyOf rename ms n])),
        c::s.request.filter (fun m => m != n),(c,n)::s.original⟩ := by
      unfold copySchema copyOf
      rw [here,named,found]
      simp only [base,append,Option.getD_some,List.append_assoc]
    have rest := ih (fun m mem => known m (List.mem_cons_of_mem _ mem)) (extra ++ [copyOf rename ms n])
      (copySchema rename s n) (by rw [made])
    rw [List.foldl_cons,rest.1,rest.2,made]
    refine ⟨?_,rfl⟩
    rw [List.map_cons,List.append_assoc,List.append_assoc,List.append_assoc,List.singleton_append]

theorem reachNodup {graph : List (String × List String)} {seen stack : List String} (once : seen.Nodup) :
    (reach graph seen stack).Nodup := by
  fun_induction reach graph seen stack with
  | case1 seen => exact once
  | case2 seen n rest known ih => exact ih once
  | case3 seen n rest known found ih => exact ih once
  | case4 seen n rest known more found ih => exact ih (List.nodup_cons.mpr ⟨known,once⟩)

end Folds
section Shared
variable {top : Node} {ms : List (String × Node)}

structure Pointed (rename : List (String × String)) (op op' : String × String × Node) : Prop where
  path : op'.1 = op.1
  method : op'.2.1 = op.2.1
  request : mapGet op'.2.2 "requestBody" = (mapGet op.2.2 "requestBody").map (rewriteRefs rename)
  responses : mapGet op'.2.2 "responses" = mapGet op.2.2 "responses"

structure Copied (q : List String) (rename : List (String × String)) (ms base copies : List (String × Node)) : Prop where
  names : base.map Prod.fst = ms.map Prod.fst
  lookup : ∀ n, base.lookup n =
    if n ∈ q ∧ rename.lookup n = none then (ms.lookup n).map (rewriteRefs rename) else ms.lookup n
  inside : ∀ {G : String → Prop}, (∀ a b, rename.lookup a = some b → G (schemaRefPrefix ++ b)) →
    Within G (.mapping ms) → Within G (.mapping base)
  once : (copies.map Prod.fst).Nodup
  origin : ∀ c ∈ copies, ∃ n schema, ms.lookup n = some schema ∧ rename.lookup n = some c.1 ∧
    c.2 = rewriteRefs rename schema
  copied : ∀ n c, rename.lookup n = some c → ∃ schema, ms.lookup n = some schema ∧
    copies.lookup c = some (rewriteRefs rename schema)

structure SplitFacts (top : Node) (ms : List (String × Node)) (rename : List (String × String)) (s : Split) : Prop where
  others : ∀ k, k ≠ "paths" → mapGet s.top k = mapGet top k
  object : (∃ members, top = .mapping members) → ∃ members, s.top = .mapping members
  operations : List.Forall₂ (Pointed rename) (operations top) (operations s.top)
  inside : ∀ {G : String → Prop}, (∀ a b, rename.lookup a = some b → G (schemaRefPrefix ++ b)) →
    Within G top → Within G s.top
  schemas : ∃ base copies, s.schemas = .mapping (base ++ copies) ∧
    Copied (reachable top (.mapping ms) "requestBody") rename ms base copies

theorem pathsPointed (rename : List (String × String)) (top : Node) : List.Forall₂ (Pointed rename) (operations top)
    (operations (edit "paths" (each (fun _ => each (fun _ => edit "requestBody" (rewriteRefs rename)))) top)) := by
  unfold operations
  rw [mapGetEdit,if_pos rfl]
  cases mapGet top "paths" with
  | none => exact .nil
  | some paths =>
    simp only [Option.map_some,entriesEach]
    induction entries paths with
    | nil => exact .nil
    | cons path rest ih =>
      rw [List.flatMap_cons,List.map_cons,List.flatMap_cons]
      refine List.rel_append ?_ ih
      rw [entriesEach,List.map_map]
      refine List.forall₂_map_left_iff.mpr (List.forall₂_map_right_iff.mpr (List.forall₂_same.mpr (fun op _ => ?_)))
      refine ⟨rfl,rfl,?_,?_⟩
      · simp only [Function.comp_apply,mapGetEdit,if_true]
      · simp only [Function.comp_apply,mapGetEdit,if_neg (show "responses" ≠ "requestBody" by decide)]

theorem pathsInside {rename : List (String × String)} {G : String → Prop}
    (names : ∀ a b, rename.lookup a = some b → G (schemaRefPrefix ++ b)) (all : Within G top) :
    Within G (edit "paths" (each (fun _ => each (fun _ => edit "requestBody" (rewriteRefs rename)))) top) := by
  refine withinEdit (.inl (by decide)) (fun v before => ?_) all
  refine withinEach (fun _ v => eachValue _ v) (fun _ v before => ?_) before
  refine withinEach (fun _ v => editValue _ _ v) (fun _ v before => ?_) before
  exact withinEdit (.inl (by decide)) (fun v => withinRewrite (G := G) names) before

theorem renamedShared {schemas : Node} {request : List String} {n c : String}
    (named : (renames top schemas request).lookup n = some c) :
    n ∈ request ∧ n ∈ reachable top schemas "responses" ∧ c = freeName schemas (n ++ "Request") := by
  rw [renamesLookup] at named
  split at named
  · rename_i both
    exact ⟨both.1,both.2,(Option.some.inj named).symm⟩
  · exact absurd named (Option.some_ne_none _).symm

structure Renaming (ms : List (String × Node)) (q : List String) (rename : List (String × String)) : Prop where
  schema : ∀ n c, rename.lookup n = some c → ∃ schema, ms.lookup n = some schema
  apart : ∀ a c, rename.lookup a = some c → ∀ b, rename.lookup b = some c → a = b
  listed : ∀ n, n ∈ rename.map Prod.fst ↔ ∃ c, rename.lookup n = some c
  once : (rename.map Prod.fst).Nodup

theorem renamesMade {q : List String} (once : q.Nodup) (found : ∀ n ∈ q, ∃ schema, ms.lookup n = some schema) :
    Renaming ms q (renames top (.mapping ms) q) := by
  have keys : (renames top (.mapping ms) q).map Prod.fst = q.filter (fun n => n ∈ reachable top (.mapping ms) "responses") := by
    unfold renames
    simp only [List.map_map,Function.comp_def,List.map_id']
  refine ⟨fun n c named => found n (renamedShared named).1,fun a c first b second =>
    freeNameApart ((renamedShared first).2.2.symm.trans (renamedShared second).2.2),fun n => ?_,?_⟩
  · rw [keys,List.mem_filter,decide_eq_true_iff,renamesLookup]
    constructor
    · exact fun both => ⟨_,if_pos both⟩
    · rintro ⟨c,named⟩
      split at named
      · assumption
      · exact absurd named (Option.some_ne_none _).symm
  · rw [keys]
    exact once.filter _

variable {rename : List (String × String)} {q : List String}

theorem splitNone : SplitFacts top ms [] ⟨top,.mapping ms,q,[]⟩ := by
  refine ⟨fun _ _ => rfl,id,List.forall₂_same.mpr (fun op _ => ⟨rfl,rfl,?_,rfl⟩),fun _ all => all,
    ms,[],by rw [List.append_nil],rfl,fun n => ?_,fun _ all => all,List.nodup_nil,
    fun c mem => absurd mem List.not_mem_nil,fun n c named => absurd named (Option.some_ne_none _).symm⟩
  · have same : rewriteRefs [] = id := funext rewriteNone
    rw [same,Option.map_id,id]
  · have same : rewriteRefs [] = id := funext rewriteNone
    rw [same,Option.map_id,id,ite_self]

theorem splitSome (request : reachable top (.mapping ms) "requestBody" = q) (once : q.Nodup)
    (made : Renaming ms q rename) :
    SplitFacts top ms rename (((rename.map Prod.fst).mergeSort (fun a b => decide (a ≤ b))).foldl (copySchema rename)
      ⟨edit "paths" (each (fun _ => each (fun _ => edit "requestBody" (rewriteRefs rename)))) top,
        (q.filter (fun n => (rename.lookup n).isNone)).foldl
          (fun schemas name => edit name (rewriteRefs rename) schemas) (.mapping ms),q,[]⟩) := by
  obtain ⟨base,edited,names⟩ := @editsMapping (rewriteRefs rename) (q.filter (fun n => (rename.lookup n).isNone)) ms
  have lookups : ∀ n, base.lookup n = if n ∈ q ∧ rename.lookup n = none then
      (ms.lookup n).map (rewriteRefs rename) else ms.lookup n := fun n => by
    have here := @editsLookup (rewriteRefs rename) _ (once.filter (fun n => (rename.lookup n).isNone)) (.mapping ms) n
    rw [edited] at here
    simp only [List.mem_filter,Option.isNone_iff_eq_none] at here
    exact here
  have kept : ∀ n c, rename.lookup n = some c → base.lookup n = ms.lookup n := fun n c named => by
    rw [lookups,if_neg (fun both => Option.some_ne_none c (named.symm.trans both.2))]
  have sorted : ∀ n, n ∈ (rename.map Prod.fst).mergeSort (fun a b => decide (a ≤ b)) ↔ ∃ c, rename.lookup n = some c :=
    fun n => (List.mergeSort_perm _ _).mem_iff.trans (made.listed n)
  have sortedOnce : ((rename.map Prod.fst).mergeSort (fun a b => decide (a ≤ b))).Nodup :=
    (List.mergeSort_perm _ _).nodup_iff.mpr made.once
  generalize (rename.map Prod.fst).mergeSort (fun a b => decide (a ≤ b)) = order at sorted sortedOnce
  have copied := @copiesMade rename base order (fun n mem => by
    obtain ⟨c,named⟩ := (sorted n).mp mem
    rw [kept n c named]
    exact ⟨⟨c,named⟩,made.schema n c named⟩) []
    ⟨edit "paths" (each (fun _ => each (fun _ => edit "requestBody" (rewriteRefs rename)))) top,_,q,[]⟩
    (edited.trans (by rw [List.append_nil]))
  rw [List.append_nil] at copied
  have target : ∀ n ∈ order, ∃ c schema, rename.lookup n = some c ∧ ms.lookup n = some schema ∧
      copyOf rename base n = (c,rewriteRefs rename schema) := by
    intro n mem
    obtain ⟨c,named⟩ := (sorted n).mp mem
    obtain ⟨schema,found⟩ := made.schema n c named
    refine ⟨c,schema,named,found,?_⟩
    unfold copyOf
    rw [named,kept n c named,found]
    rfl
  have single : ∀ a ∈ order, ∀ b ∈ order, (rename.lookup a).getD a = (rename.lookup b).getD b → a = b := by
    intro a inA b inB same
    obtain ⟨c,-,first,-⟩ := target a inA
    obtain ⟨d,-,second,-⟩ := target b inB
    rw [first,second] at same
    obtain rfl : c = d := same
    exact made.apart a c first b second
  refine ⟨fun k other => ?_,fun object => ?_,?_,fun names' all => ?_,base,order.map (copyOf rename base),copied.1,names,?_,
    fun names' all => ?_,?_,?_,?_⟩
  · rw [copied.2,mapGetEdit,if_neg other]
  · obtain ⟨members,rfl⟩ := object
    exact ⟨_,copied.2⟩
  · rw [copied.2]
    exact pathsPointed rename top
  · rw [copied.2]
    exact pathsInside names' all
  · rw [request]
    exact lookups
  · rw [← edited]
    exact editsInside rewriteValue (fun _ before => withinRewrite names' before) _ all
  · rw [List.map_map]
    exact List.Nodup.map_on (fun a inA b inB same => single a inA b inB same) sortedOnce
  · intro c mem
    obtain ⟨n,inOrder,rfl⟩ := List.mem_map.mp mem
    obtain ⟨c,schema,named,found,copy⟩ := target n inOrder
    rw [copy]
    exact ⟨n,schema,found,named,rfl⟩
  · intro n c named
    have inOrder := (sorted n).mpr ⟨c,named⟩
    obtain ⟨d,schema,named',found,copy⟩ := target n inOrder
    obtain rfl := Option.some.inj (named.symm.trans named')
    have keyed := @lookupKeyed _ order (fun n => (rename.lookup n).getD n)
      (fun n => rewriteRefs rename ((base.lookup n).getD cut)) single n inOrder
    rw [named] at keyed
    refine ⟨schema,found,keyed.trans ?_⟩
    rw [kept n c named,found]
    rfl

theorem splitFacts (top : Node) (ms : List (String × Node)) : SplitFacts top ms
    (renames top (.mapping ms) (reachable top (.mapping ms) "requestBody"))
    (splitShared top (.mapping ms) (reachable top (.mapping ms) "requestBody")) := by
  have found : ∀ n ∈ reachable top (.mapping ms) "requestBody", ∃ schema, ms.lookup n = some schema :=
    fun n mem => reachedFound ((reachableIff _ _ n).mp mem)
  have once : (reachable top (.mapping ms) "requestBody").Nodup := reachNodup List.nodup_nil
  unfold splitShared
  dsimp only
  split
  · rename_i none
    rw [List.isEmpty_iff.mp none]
    exact splitNone
  · exact splitSome rfl once (renamesMade once found)

end Shared
end DevkitCommon.Apidoc
