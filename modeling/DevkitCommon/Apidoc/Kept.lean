import DevkitCommon.Apidoc.Followed

/-! A document after its schemas are split and marked: requests and responses have no
schema in common, and every body unfolds to the tree it had but for the marks. -/
namespace DevkitCommon.Apidoc
open DevkitCommon.Yaml DevkitCommon.Reach DevkitCommon.Pairs

section Statements

structure OperationKept (before after : Node) (op op' : String × String × Node) : Prop where
  path : op'.1 = op.1
  method : op'.2.1 = op.2.1
  bodies : ∀ member ∈ ["requestBody","responses"],
    (mapGet op.2.2 member = none ∧ mapGet op'.2.2 member = none) ∨
      ∃ n n', mapGet op.2.2 member = some n ∧ mapGet op'.2.2 member = some n' ∧
        ∀ depth, Same (unfold before depth n) (unfold after depth n')

structure Kept (before after : Node) : Prop where
  apart : ∀ n, Leads after "requestBody" n → ¬ Leads after "responses" n
  resolves : Resolves after
  names : ∃ copies, (entries (schemasOf after)).map Prod.fst = (entries (schemasOf before)).map Prod.fst ++ copies ∧
    copies.Nodup ∧ ∀ c ∈ copies, c ∉ (entries (schemasOf before)).map Prod.fst
  schemas : ∀ n s, mapGet (schemasOf before) n = some s → ∃ s', mapGet (schemasOf after) n = some s' ∧
    Same (unfold before 0 s) (unfold after 0 s')
  operations : List.Forall₂ (OperationKept before after) (operations before) (operations after)

end Statements
section Plans
variable {top after : Node} {rename : List (String × String)}

structure Moved (rename : List (String × String)) (s s' : Node) : Prop where
  tree : ∀ t t', (∀ r ∈ references s, Same (t r) (t' (renamed rename r))) → Same (expand t s) (expand t' s')
  refs : ∀ r ∈ references s', ∃ old ∈ references s, r = renamed rename old

structure Plan (top after : Node) (rename : List (String × String)) : Prop where
  fresh : ∀ n c, rename.lookup n = some c → Word c ∧ mapGet (schemasOf top) c = none
  shared : ∀ n, (∃ c, rename.lookup n = some c) ↔ Found top "requestBody" n ∧ Found top "responses" n
  copies : ∀ n c s, rename.lookup n = some c → mapGet (schemasOf top) n = some s →
    ∃ s', mapGet (schemasOf after) c = some s' ∧ Moved rename s s'
  asked : ∀ n s, mapGet (schemasOf top) n = some s → Found top "requestBody" n → ¬ Found top "responses" n →
    ∃ s', mapGet (schemasOf after) n = some s' ∧ Moved rename s s'
  others : ∀ n s, mapGet (schemasOf top) n = some s → ¬ (Found top "requestBody" n ∧ ¬ Found top "responses" n) →
    ∃ s', mapGet (schemasOf after) n = some s' ∧ Moved [] s s'
  shaped : Shaped after
  elsewhere : ∀ part name, part ≠ "schemas" → Word part → Word name →
    resolve after (componentRef part name) = resolve top (componentRef part name)
  names : ∃ copies, (entries (schemasOf after)).map Prod.fst = (entries (schemasOf top)).map Prod.fst ++ copies ∧
    copies.Nodup ∧ ∀ c ∈ copies, c ∉ (entries (schemasOf top)).map Prod.fst
  operations : List.Forall₂ (Pointed rename) (operations top) (operations after)
  resolves : Resolves after

theorem movedStill {s : Node} (still : ∀ r ∈ references s, renamed rename r = r) : Moved rename s s := by
  refine ⟨fun t t' same => ?_,fun r mem => ⟨r,mem,(still r mem).symm⟩⟩
  have kept := @sameRewrite [] t t' s (fun r mem => by
    rw [renamedNone]
    have here := same r mem
    rwa [still r mem] at here)
  rwa [rewriteNone] at kept

theorem movedWeaken {s s' : Node} (still : ∀ r ∈ references s, renamed rename r = r) (moved : Moved [] s s') : Moved rename s s' := by
  constructor
  · exact fun t t' same => moved.tree t t' (fun r mem => by
      rw [renamedNone]
      have here := same r mem
      rwa [still r mem] at here)
  · intro r mem
    obtain ⟨old,inside,made⟩ := moved.refs r mem
    exact ⟨old,inside,made.trans ((renamedNone old).trans (still old inside).symm)⟩

def Carried (top after : Node) (member : String) (rename : List (String × String)) : Prop :=
  ∀ r, Follows top member r → ∃ n n', resolve top r = some n ∧ resolve after (renamed rename r) = some n' ∧ Moved rename n n'

theorem sharedSides (plan : Plan top after rename) (doc : Document top) {n c : String} (named : rename.lookup n = some c) :
    Follows top "requestBody" (schemaRefPrefix ++ n) ∧ Follows top "responses" (schemaRefPrefix ++ n) := by
  obtain ⟨asked,answered⟩ := (plan.shared n).mp ⟨c,named⟩
  exact ⟨foundFollows doc asked,foundFollows doc answered⟩

theorem behindStill (doc : Document top) (sighted : Sighted top) (plan : Plan top after rename) {r : String}
    (behind : Behind top "requestBody" r) : renamed rename r = r := by
  unfold renamed
  cases other : (refTo r).bind (fun name => rename.lookup name) with
  | none => rfl
  | some c =>
    obtain ⟨n,is,named⟩ := Option.bind_eq_some_iff.mp other
    obtain rfl := refToForm is
    exact absurd (sharedSides plan doc named).2 (sighted.request n behind)

theorem requestCarried (doc : Document top) (sighted : Sighted top) (plan : Plan top after rename) :
    Carried top after "requestBody" rename := by
  intro r follows
  cases followsWithin (withinKind doc sighted) (by decide) follows with
  | @other part name n apart kind word there =>
    have still := @renamedOther rename _ (refToComponent kind apart name)
    refine ⟨n,n,there,?_,movedStill (fun r' ref => ?_)⟩
    · rw [still,plan.elsewhere part name apart kind word,there]
    · exact behindStill doc sighted plan (.past follows (refToComponent kind apart name) there ref)
  | @schema n s word found =>
    have there : resolve top (schemaRefPrefix ++ n) = some s := by rw [resolveSchema doc.shaped word,found]
    refine ⟨s,?_⟩
    rw [renamedSchema]
    cases named : rename.lookup n with
    | some c =>
      obtain ⟨s',found',moved⟩ := plan.copies n c s named found
      exact ⟨s',there,by rw [Option.getD_some,resolveSchema plan.shaped (plan.fresh n c named).1,found'],moved⟩
    | none =>
      rw [Option.getD_none,resolveSchema plan.shaped word]
      have apart : ¬ (Found top "requestBody" n ∧ Found top "responses" n) := fun both => by
        obtain ⟨c,other⟩ := (plan.shared n).mpr both
        exact absurd (named.symm.trans other) (Option.some_ne_none _).symm
      by_cases asked : Found top "requestBody" n
      · obtain ⟨s',found',moved⟩ := plan.asked n s found asked (fun answered => apart ⟨asked,answered⟩)
        exact ⟨s',there,found',moved⟩
      · obtain ⟨s',found',moved⟩ := plan.others n s found (fun both => asked both.1)
        have behind := (foundOr doc sighted (by decide) follows n rfl).resolve_left asked
        exact ⟨s',there,found',movedWeaken (fun r' ref => behindStill doc sighted plan (.next behind there ref)) moved⟩

theorem responseCarried (doc : Document top) (sighted : Sighted top) (plan : Plan top after rename) :
    Carried top after "responses" [] := by
  intro r follows
  rw [renamedNone]
  cases followsWithin (withinKind doc sighted) (by decide) follows with
  | @other part name n apart kind word there =>
    refine ⟨n,n,there,?_,movedStill (fun r' _ => renamedNone r')⟩
    rw [plan.elsewhere part name apart kind word,there]
  | @schema n s word found =>
    have there : resolve top (schemaRefPrefix ++ n) = some s := by rw [resolveSchema doc.shaped word,found]
    obtain ⟨s',found',moved⟩ := plan.others n s found (fun both => by
      rcases foundOr doc sighted (by decide) follows n rfl with answered | behind
      · exact both.2 answered
      · exact sighted.responses n behind (foundFollows doc both.1))
    exact ⟨s,s',there,by rw [resolveSchema plan.shaped word,found'],moved⟩

def leaf (top : Node) : Nat → String → Node
  | 0, _ => cut
  | depth+1, r => match resolve top r with
    | some n => unfold top depth n
    | none => cut

theorem unfoldLeaf (top : Node) (depth : Nat) (n : Node) : unfold top depth n = expand (leaf top depth) n := by
  cases depth with
  | zero => rfl
  | succ depth => rfl

theorem leafSame {member : String} {rename : List (String × String)} (carried : Carried top after member rename) (depth : Nat) {r : String}
    (follows : Follows top member r) : Same (leaf top depth r) (leaf after depth (renamed rename r)) := by
  induction depth generalizing r with
  | zero => exact .scalar ""
  | succ depth ih =>
    obtain ⟨n,n',there,there',moved⟩ := carried r follows
    rw [leaf,leaf,there,there']
    dsimp only
    rw [unfoldLeaf,unfoldLeaf]
    exact moved.tree _ _ (fun m ref => ih (.next follows there ref))

theorem followsBack {member : String} {rename : List (String × String)} (carried : Carried top after member rename)
    (bodies : ∀ op' ∈ operations after, ∀ body', mapGet op'.2.2 member = some body' → ∃ op ∈ operations top, ∃ body,
      mapGet op.2.2 member = some body ∧ body' = rewriteRefs rename body)
    {r' : String} (follows : Follows after member r') : ∃ r, Follows top member r ∧ r' = renamed rename r := by
  induction follows with
  | @body op' body' r' mem found ref =>
    obtain ⟨op,inside,body,here,rfl⟩ := bodies op' mem body' found
    rw [rewrittenRefs] at ref
    obtain ⟨r,old,rfl⟩ := List.mem_map.mp ref
    exact ⟨r,.body inside here old,rfl⟩
  | next before there ref ih =>
    obtain ⟨r,follows,rfl⟩ := ih
    obtain ⟨n,n',here,here',moved⟩ := carried r follows
    obtain rfl := Option.some.inj (here'.symm.trans there)
    obtain ⟨old,inside,rfl⟩ := moved.refs _ ref
    exact ⟨old,.next follows here inside,rfl⟩

theorem forallMem {α β : Type} {R : α → β → Prop} {xs : List α} {ys : List β} (all : List.Forall₂ R xs ys) :
    ∀ y ∈ ys, ∃ x ∈ xs, R x y := by
  induction all with
  | nil => exact fun _ mem => absurd mem List.not_mem_nil
  | cons head _ ih =>
    intro y mem
    rcases List.mem_cons.mp mem with rfl | mem
    · exact ⟨_,List.mem_cons_self,head⟩
    · obtain ⟨x,inside,related⟩ := ih y mem
      exact ⟨x,List.mem_cons_of_mem _ inside,related⟩

theorem planApart (doc : Document top) (sighted : Sighted top) (plan : Plan top after rename) (n : String)
    (asked : Leads after "requestBody" n) (answered : Leads after "responses" n) : False := by
  obtain ⟨r,asks,same⟩ := followsBack (requestCarried doc sighted plan) (fun op' inside body' here => by
    obtain ⟨op,inside',pointed⟩ := forallMem plan.operations op' inside
    rw [pointed.request] at here
    obtain ⟨body,here',made⟩ := Option.map_eq_some_iff.mp here
    exact ⟨op,inside',body,here',made.symm⟩) asked.2
  obtain ⟨r',answers,stays⟩ := followsBack (responseCarried doc sighted plan) (fun op' inside body' here => by
    obtain ⟨op,inside',pointed⟩ := forallMem plan.operations op' inside
    exact ⟨op,inside',body',pointed.responses ▸ here,(rewriteNone body').symm⟩) answered.2
  rw [renamedNone] at stays
  obtain rfl := stays
  obtain ⟨s,found⟩ := kindSchema (followsWithin (withinKind doc sighted) (by decide) answers)
  have old {c : String} (named : ∃ a, rename.lookup a = some c) : c ≠ n := by
    rintro rfl
    obtain ⟨a,named⟩ := named
    exact absurd (found.symm.trans (plan.fresh a c named).2) (Option.some_ne_none _)
  have kept : r = schemaRefPrefix ++ n := by
    unfold renamed at same
    split at same
    · rename_i c other
      obtain ⟨a,-,named⟩ := Option.bind_eq_some_iff.mp other
      exact absurd (String.append_right_inj _ |>.mp same).symm (old ⟨a,named⟩)
    · exact same.symm
  subst kept
  have first := (foundOr doc sighted (by decide) asks n rfl).resolve_right (fun behind => sighted.request n behind answers)
  have second := (foundOr doc sighted (by decide) answers n rfl).resolve_right (fun behind => sighted.responses n behind asks)
  obtain ⟨c,named⟩ := (plan.shared n).mpr ⟨first,second⟩
  rw [renamedSchema,named] at same
  exact old ⟨n,named⟩ (String.append_right_inj _ |>.mp same).symm

theorem forallInside {α β : Type} {R Q : α → β → Prop} {P : α → Prop} {xs : List α} {ys : List β}
    (all : List.Forall₂ R xs ys) (each : ∀ x ∈ xs, P x) (next : ∀ x y, P x → R x y → Q x y) : List.Forall₂ Q xs ys := by
  induction all with
  | nil => exact .nil
  | cons head _ ih =>
    obtain ⟨first,rest⟩ := List.forall_mem_cons.mp each
    exact .cons (next _ _ first head) (ih rest)

theorem planOperations (doc : Document top) (sighted : Sighted top) (plan : Plan top after rename) :
    List.Forall₂ (OperationKept top after) (operations top) (operations after) := by
  refine forallInside (P := fun op => op ∈ operations top) plan.operations (fun _ mem => mem) (fun op op' inside pointed => ?_)
  refine ⟨pointed.path,pointed.method,List.forall_mem_cons.mpr ⟨?_,List.forall_mem_singleton.mpr ?_⟩⟩
  · rw [pointed.request]
    cases found : mapGet op.2.2 "requestBody" with
    | none => exact .inl ⟨rfl,rfl⟩
    | some body =>
      refine .inr ⟨body,rewriteRefs rename body,rfl,rfl,fun depth => ?_⟩
      rw [unfoldLeaf,unfoldLeaf]
      exact sameRewrite body (fun r ref => leafSame (requestCarried doc sighted plan) depth (.body inside found ref))
  · rw [pointed.responses]
    cases found : mapGet op.2.2 "responses" with
    | none => exact .inl ⟨rfl,rfl⟩
    | some body =>
      refine .inr ⟨body,body,rfl,rfl,fun depth => ?_⟩
      have same : Same (expand (leaf top depth) body) (expand (leaf after depth) (rewriteRefs [] body)) :=
        sameRewrite body (fun r ref => leafSame (responseCarried doc sighted plan) depth (.body inside found ref))
      rw [unfoldLeaf,unfoldLeaf]
      rw [rewriteNone] at same
      exact same

theorem planKept (doc : Document top) (sighted : Sighted top) (plan : Plan top after rename) : Kept top after := by
  refine ⟨planApart doc sighted plan,plan.resolves,plan.names,fun n s found => ?_,planOperations doc sighted plan⟩
  have cutSame : ∀ rename : List (String × String), ∀ r ∈ references s,
      Same ((fun _ => cut : String → Node) r) ((fun _ => cut : String → Node) (renamed rename r)) := fun _ _ _ => .scalar ""
  by_cases asked : Found top "requestBody" n ∧ ¬ Found top "responses" n
  · obtain ⟨s',found',change⟩ := plan.asked n s found asked.1 asked.2
    exact ⟨s',found',change.tree _ _ (cutSame rename)⟩
  · obtain ⟨s',found',change⟩ := plan.others n s found asked
    exact ⟨s',found',change.tree _ _ (cutSame [])⟩

end Plans
section Documents
variable {zeroPasses : String → Option Bool} {structs : Structs} {top : Node}

theorem movedRewrite (rename : List (String × String)) (s : Node) : Moved rename s (rewriteRefs rename s) := by
  refine ⟨fun t t' refs => sameRewrite s refs,fun r mem => ?_⟩
  rw [rewrittenRefs] at mem
  obtain ⟨old,found,rfl⟩ := List.mem_map.mp mem
  exact ⟨old,found,rfl⟩

theorem movedMark {request : List String} {original rename : List (String × String)} {n : String} {s : Node}
    (object : SchemaObject s) :
    Moved rename s (markSchema zeroPasses structs request original n (rewriteRefs rename s)) :=
  ⟨fun _ _ refs => sameMark object refs,markSchemaWithin (movedRewrite rename s).refs⟩

theorem planNone (doc : Document top) (none : schemasOf top = .mapping []) : Plan top top [] := by
  have missing : ∀ n, mapGet (schemasOf top) n = Option.none := fun n => by rw [none]; rfl
  have absent {n : String} {s : Node} (found : mapGet (schemasOf top) n = some s) : False :=
    absurd (found.symm.trans (missing n)) (Option.some_ne_none _)
  refine ⟨fun n c named => absurd named (Option.some_ne_none _).symm,fun n => ⟨?_,?_⟩,fun n c s named _ => absurd named
    (Option.some_ne_none _).symm,fun n s found _ _ => (absent found).elim,fun n s found _ => (absent found).elim,doc.shaped,
    fun _ _ _ _ _ => rfl,⟨[],(List.append_nil _).symm,List.nodup_nil,fun _ mem => absurd mem List.not_mem_nil⟩,
    List.forall₂_same.mpr (fun op _ => ⟨rfl,rfl,?_,rfl⟩),doc.resolves⟩
  · exact fun ⟨c,named⟩ => absurd named (Option.some_ne_none _).symm
  · rintro ⟨found,-⟩
    obtain ⟨s,found⟩ := foundSchema found
    exact (absent found).elim
  · have same : rewriteRefs [] = id := funext rewriteNone
    rw [same,Option.map_id,id]

theorem operationsSame {a b : Node} (same : mapGet a "paths" = mapGet b "paths") : operations a = operations b := by
  unfold operations
  rw [same]

theorem noteWithin {G : String → Prop} {info : Node} (before : Within G info) : Within G (noteInfo info) := by
  unfold noteInfo
  split
  · refine withinEdit (.inl (by decide)) (fun v inside => ?_) before
    unfold noted
    split
    · split
      · exact fun _ mem => absurd mem List.not_mem_nil
      · exact fun _ mem => absurd mem List.not_mem_nil
    · exact inside
  · unfold mapSet
    split
    · exact withinEdit (.inl (by decide)) (fun _ _ _ mem => absurd mem List.not_mem_nil) before
    · exact withinAppend (.inl (by decide)) (fun _ mem => absurd mem List.not_mem_nil) before

def marked (schemas : Node) (top : Node) : Node :=
  edit "info" noteInfo (edit "components" (edit "schemas" (fun _ => schemas)) top)

theorem markedSchemas {schemas comps old top : Node} (found : mapGet top "components" = some comps)
    (here : mapGet comps "schemas" = some old) : schemasOf (marked schemas top) = schemas := by
  unfold schemasOf marked
  rw [mapGetEdit,if_neg (by decide),mapGetEdit,if_pos rfl,found]
  dsimp only [Option.map_some]
  rw [mapGetEdit,if_pos rfl,here]
  rfl

theorem markedPaths (schemas top : Node) : mapGet (marked schemas top) "paths" = mapGet top "paths" := by
  unfold marked
  rw [mapGetEdit,if_neg (by decide),mapGetEdit,if_neg (by decide)]

theorem markedWithin {G : String → Prop} {schemas top : Node} (all : Within G top) (inside : Within G schemas) :
    Within G (marked schemas top) :=
  withinEdit (.inl (by decide)) (fun _ => noteWithin)
    (withinEdit (.inl (by decide)) (fun _ => withinEdit (.inl (by decide)) (fun _ _ => inside)) all)

theorem requiredMarked {comps : Node} {ms : List (String × Node)} (found : mapGet top "components" = some comps)
    (here : mapGet comps "schemas" = some (.mapping ms)) :
    ∃ request original, Required zeroPasses structs top =
      marked (each (markSchema zeroPasses structs request original)
        (splitShared top (.mapping ms) (reachable top (.mapping ms) "requestBody")).schemas)
        (splitShared top (.mapping ms) (reachable top (.mapping ms) "requestBody")).top := by
  unfold Required
  rw [found]
  dsimp only
  rw [here]
  exact ⟨_,_,rfl⟩

structure Marking (mark : String → Node → Node) : Prop where
  moved : ∀ (rename : List (String × String)) n s, SchemaObject s → Moved rename s (mark n (rewriteRefs rename s))
  value : ∀ n s, (mark n s).value = s.value
  inside : ∀ {G : String → Prop} n s, Within G s → Within G (mark n s)

theorem markMarking (request : List String) (original : List (String × String)) :
    Marking (markSchema zeroPasses structs request original) :=
  ⟨fun _ _ _ object => movedMark object,fun _ => markSchemaValue,fun _ _ => markSchemaWithin⟩

end Documents
section Marking
variable {mark : String → Node → Node} {q : List String} {rename : List (String × String)}
  {ms base copies : List (String × Node)}

def ending (mark : String → Node → Node) (base copies : List (String × Node)) : Node := each mark (.mapping (base ++ copies))

theorem endingFound {n : String} {s : Node} (found : base.lookup n = some s) :
    mapGet (ending mark base copies) n = some (mark n s) := by
  unfold ending
  rw [mapGetEach]
  exact congrArg (Option.map (mark n)) (lookupBefore found copies)

theorem endingCopy (lists : Copied q rename ms base copies) (fresh : ∀ n c, rename.lookup n = some c → ms.lookup c = none)
    {n c : String} {s : Node} (named : rename.lookup n = some c) (old : ms.lookup n = some s) :
    mapGet (ending mark base copies) c = some (mark c (rewriteRefs rename s)) := by
  obtain ⟨schema,old',copy⟩ := lists.copied n c named
  obtain rfl := Option.some.inj (old.symm.trans old')
  have absent : base.lookup c = none := by
    rw [lookupAbsent,lists.names]
    exact lookupAbsent.mp (fresh n c named)
  unfold ending
  rw [mapGetEach]
  exact congrArg (Option.map (mark c)) ((lookupAfter absent copies).trans copy)

theorem endingAsked (lists : Copied q rename ms base copies) {n : String} {s : Node} (old : ms.lookup n = some s)
    (asked : n ∈ q) (unnamed : rename.lookup n = none) :
    mapGet (ending mark base copies) n = some (mark n (rewriteRefs rename s)) := by
  refine endingFound ?_
  rw [lists.lookup,if_pos ⟨asked,unnamed⟩,old,Option.map_some]

theorem endingOther (lists : Copied q rename ms base copies) {n : String} {s : Node} (old : ms.lookup n = some s)
    (other : ¬ (n ∈ q ∧ rename.lookup n = none)) : mapGet (ending mark base copies) n = some (mark n s) := by
  refine endingFound ?_
  rw [lists.lookup,if_neg other,old]

theorem endingHas (lists : Copied q rename ms base copies) (fresh : ∀ n c, rename.lookup n = some c → ms.lookup c = none)
    {n : String} (known : (∃ s, ms.lookup n = some s) ∨ ∃ a, rename.lookup a = some n) :
    (mapGet (ending mark base copies) n).isSome = true := by
  rcases known with ⟨s,old⟩ | ⟨a,named⟩
  · by_cases asked : n ∈ q ∧ rename.lookup n = none
    · rw [endingAsked lists old asked.1 asked.2]
      rfl
    · rw [endingOther lists old asked]
      rfl
  · obtain ⟨s,old,-⟩ := lists.copied a n named
    rw [endingCopy lists fresh named old]
    rfl

theorem endingNames (lists : Copied q rename ms base copies) :
    (entries (ending mark base copies)).map Prod.fst = ms.map Prod.fst ++ copies.map Prod.fst := by
  unfold ending
  rw [entriesEach,List.map_map,← lists.names,← List.map_append]
  rfl

theorem endingWithin (marking : Marking mark) (lists : Copied q rename ms base copies) {G : String → Prop}
    (names : ∀ a b, rename.lookup a = some b → G (schemaRefPrefix ++ b)) (objects : ∀ n s, ms.lookup n = some s → SchemaObject s)
    (all : Within G (.mapping ms)) : Within G (ending mark base copies) := by
  refine withinEach marking.value (fun k v => marking.inside k v) (withinMembers.mpr (List.forall_mem_append.mpr ⟨?_,?_⟩))
  · exact withinMembers.mp (lists.inside names all)
  · intro c mem
    obtain ⟨n,schema,old,-,made⟩ := lists.origin c mem
    obtain ⟨xs,rfl⟩ := (objects n schema old).mapping
    have before : Within G (.mapping xs) := by
      have inside := withinMembers.mp all _ (lookupMem old)
      rw [refsPlain (.inr rfl)] at inside
      exact inside
    rw [made,refsPlain (.inr (rewriteValue _))]
    exact withinRewrite names before

theorem namesOnce (lists : Copied q rename ms base copies) (fresh : ∀ n c, rename.lookup n = some c → ms.lookup c = none)
    {c : String} (mem : c ∈ copies.map Prod.fst) : c ∉ ms.map Prod.fst := by
  obtain ⟨copy,inside,rfl⟩ := List.mem_map.mp mem
  obtain ⟨n,schema,-,named,-⟩ := lists.origin copy inside
  exact lookupAbsent.mp (fresh n copy.1 named)

end Marking
section Whole
variable {zeroPasses : String → Option Bool} {structs : Structs} {top : Node}

theorem freeNameWord {schemas : Node} {n : String} (word : Word n) : Word (freeName schemas (n ++ "Request")) := by
  obtain ⟨i,form⟩ := @freeNameForm schemas (n ++ "Request")
  unfold Word
  rw [form,String.toList_append]
  have behind {c : Char} (other : c ≠ '_') (out : c ∉ n.toList) (none' : c ∉ "Request".toList) :
      c ∉ n.toList ++ "Request".toList ++ List.replicate i '_' := by
    rw [List.mem_append,List.mem_append]
    exact fun mem => mem.elim (fun mem => mem.elim out none') (fun mem => other (List.eq_of_mem_replicate mem))
  exact ⟨behind (by decide) word.1 (by decide),behind (by decide) word.2 (by decide)⟩

theorem markedShaped {schemas top' : Node} {members : List (String × Node)} (shaped : Shaped top)
    (object : (∃ members, top = .mapping members) → ∃ members, top' = .mapping members)
    (others : ∀ k, k ≠ "paths" → mapGet top' k = mapGet top k) (is : schemasOf (marked schemas top') = .mapping members) :
    Shaped (marked schemas top') := by
  obtain ⟨before,rfl⟩ := object shaped.object
  refine ⟨⟨_,rfl⟩,fun comps found => ?_,⟨_,is⟩⟩
  unfold marked at found
  rw [mapGetEdit,if_neg (by decide),mapGetEdit,if_pos rfl,others _ (by decide)] at found
  obtain ⟨old,here,rfl⟩ := Option.map_eq_some_iff.mp found
  obtain ⟨parts,rfl⟩ := shaped.components old here
  exact ⟨_,rfl⟩

theorem markedElsewhere {schemas top' : Node} (shaped : Shaped top) (shaped' : Shaped (marked schemas top'))
    (others : ∀ k, k ≠ "paths" → mapGet top' k = mapGet top k) {part name : String} (apart : part ≠ "schemas") (kind : Word part)
    (word : Word name) : resolve (marked schemas top') (componentRef part name) = resolve top (componentRef part name) := by
  rw [resolveComponent shaped kind word,resolveComponent shaped' kind word]
  refine congrArg (fun o => Option.bind o (fun n => under n name)) ?_
  unfold marked
  rw [mapGetEdit,if_neg (by decide),mapGetEdit,if_pos rfl,others _ (by decide)]
  cases mapGet top "components" with
  | none => rfl
  | some comps =>
    rw [Option.map_some,Option.bind_some,Option.bind_some,mapGetEdit,if_neg apart]

theorem splitPlan (doc : Document top) (sighted : Sighted top) {comps : Node} {ms : List (String × Node)} {mark : String → Node → Node}
    (marking : Marking mark) (found : mapGet top "components" = some comps)
    (here : mapGet comps "schemas" = some (.mapping ms)) :
    Plan top (marked (each mark (splitShared top (.mapping ms) (reachable top (.mapping ms) "requestBody")).schemas)
        (splitShared top (.mapping ms) (reachable top (.mapping ms) "requestBody")).top)
      (renames top (.mapping ms) (reachable top (.mapping ms) "requestBody")) := by
  have facts := splitFacts top ms
  have schemasTop : schemasOf top = .mapping ms := by
    unfold schemasOf
    rw [found]
    dsimp only
    rw [here]
    rfl
  have asks : ∀ n, n ∈ reachable top (.mapping ms) "requestBody" ↔ Found top "requestBody" n := fun n => by
    unfold Found
    rw [schemasTop]
    exact reachableIff _ _ n
  have shared : ∀ n, (∃ c, (renames top (.mapping ms) (reachable top (.mapping ms) "requestBody")).lookup n = some c) ↔
      Found top "requestBody" n ∧ Found top "responses" n := by
    intro n
    unfold Found
    rw [schemasTop,renamesLookup,← reachableIff,← reachableIff]
    constructor
    · rintro ⟨c,named⟩
      split at named
      · assumption
      · exact absurd named (Option.some_ne_none _).symm
    · exact fun both => ⟨_,if_pos both⟩
  have objects : ∀ n s, ms.lookup n = some s → Word n ∧ SchemaObject s := fun n s old => by
    have entry : mapGet (schemasOf top) n = some s := by rw [schemasTop]; exact old
    exact schemaEntry doc entry
  have fresh : ∀ n c, (renames top (.mapping ms) (reachable top (.mapping ms) "requestBody")).lookup n = some c →
      Word c ∧ ms.lookup c = none := fun n c named => by
    obtain ⟨asked,-,made⟩ := renamedShared named
    obtain ⟨s,old⟩ := foundSchema ((asks n).mp asked)
    rw [schemasTop] at old
    rw [made]
    exact ⟨freeNameWord (objects n s old).1,@freeNameFresh (.mapping ms) _⟩
  generalize renames top (.mapping ms) (reachable top (.mapping ms) "requestBody") = rename at facts shared fresh
  generalize splitShared top (.mapping ms) (reachable top (.mapping ms) "requestBody") = split at facts
  obtain ⟨base,copies,made,lists⟩ := facts.schemas
  have absent : ∀ n c, rename.lookup n = some c → ms.lookup c = none := fun n c named => (fresh n c named).2
  have schemasAfter : schemasOf (marked (each mark split.schemas) split.top) = ending mark base copies := by
    rw [markedSchemas ((facts.others _ (by decide)).trans found) here,made]
    rfl
  have shaped : Shaped (marked (each mark split.schemas) split.top) :=
    markedShaped doc.shaped facts.object facts.others (schemasAfter.trans rfl)
  have elsewhere : ∀ part name, part ≠ "schemas" → Word part → Word name →
      resolve (marked (each mark split.schemas) split.top) (componentRef part name) = resolve top (componentRef part name) :=
    fun part name apart kind word => markedElsewhere doc.shaped shaped facts.others apart kind word
  have unnamed : ∀ n, Found top "requestBody" n → ¬ Found top "responses" n → rename.lookup n = none := fun n asked out => by
    cases named : rename.lookup n with
    | none => rfl
    | some c => exact absurd ((shared n).mp ⟨c,named⟩).2 out
  refine ⟨?_,shared,?_,?_,?_,shaped,elsewhere,?_,?_,?_⟩
  · rw [schemasTop]
    exact fresh
  · rw [schemasTop,schemasAfter]
    exact fun n c s named old => ⟨_,endingCopy lists absent named old,marking.moved rename c s (objects n s old).2⟩
  · rw [schemasTop,schemasAfter]
    exact fun n s old asked out =>
      ⟨_,endingAsked lists old ((asks n).mpr asked) (unnamed n asked out),marking.moved rename n s (objects n s old).2⟩
  · rw [schemasTop,schemasAfter]
    intro n s old other
    have moved := marking.moved [] n s (objects n s old).2
    rw [rewriteNone] at moved
    refine ⟨_,endingOther lists old (fun both => other ⟨(asks n).mp both.1,fun answered => ?_⟩),moved⟩
    obtain ⟨c,named⟩ := (shared n).mpr ⟨(asks n).mp both.1,answered⟩
    exact absurd (both.2.symm.trans named) (Option.some_ne_none _).symm
  · rw [schemasTop,schemasAfter]
    exact ⟨copies.map Prod.fst,endingNames lists,lists.once,fun c mem => namesOnce lists absent mem⟩
  · rw [operationsSame (markedPaths _ split.top)]
    exact facts.operations
  · have schema {n : String} (word : Word n) (known : (∃ s, ms.lookup n = some s) ∨ ∃ a, rename.lookup a = some n) :
        (resolve (marked (each mark split.schemas) split.top) (schemaRefPrefix ++ n)).isSome = true := by
      rw [resolveSchema shaped word,schemasAfter]
      exact endingHas lists absent known
    have names : ∀ a b, rename.lookup a = some b →
        (resolve (marked (each mark split.schemas) split.top) (schemaRefPrefix ++ b)).isSome = true :=
      fun a b named => schema (fresh a b named).1 (.inr ⟨a,named⟩)
    have all : Within (fun r => (resolve (marked (each mark split.schemas) split.top) r).isSome = true) top := fun r ref => by
      cases withinKind doc sighted r ref with
      | @schema n s word old =>
        rw [schemasTop] at old
        exact schema word (.inl ⟨s,old⟩)
      | other apart kind word there =>
        rw [elsewhere _ _ apart kind word,there]
        rfl
    have schemas : Within (fun r => (resolve (marked (each mark split.schemas) split.top) r).isSome = true) (.mapping ms) :=
      entriesWithin (entriesWithin all found (by decide)) here (by decide)
    have last := endingWithin marking lists names (fun n s old => (objects n s old).2) schemas
    have same : each mark split.schemas = ending mark base copies := by
      rw [made]
      rfl
    exact markedWithin (facts.inside names all) (same.symm ▸ last)

def schemaNode (n : String) : Node := .mapping [("$ref",.scalar (schemaRefPrefix ++ n))]

def componentNode (part name : String) : Node := .mapping [("$ref",.scalar (componentRef part name))]

def jsonContent (schema : Node) : Node := .mapping [("content",.mapping [("application/json",.mapping [("schema",schema)])])]

theorem objectOf {k : String} {p : List (String × Node)} (text : ∀ v, p.lookup "$ref" = some v → ∃ r, v = Node.scalar r) :
    SchemaObject (.mapping [("properties",.mapping [(k,.mapping p)])]) := by
  refine ⟨⟨_,rfl⟩,fun props found => ⟨[(k,.mapping p)],(Option.some.inj found).symm,List.forall_mem_singleton.mpr ?_⟩⟩
  intro xs same v here
  cases same
  exact text v here

def moneyDocument : Node := .mapping [
  ("paths",.mapping [("/v1/list",.mapping [("post",.mapping [
    ("requestBody",jsonContent (schemaNode "Filter")),
    ("responses",.mapping [("200",jsonContent (schemaNode "Balance")),("default",componentNode "responses" "Failure")])])])]),
  ("components",.mapping [("responses",.mapping [("Failure",jsonContent (schemaNode "Problem"))]),("schemas",.mapping [
    ("Filter",.mapping [("properties",.mapping [("min",schemaNode "Money")])]),
    ("Balance",.mapping [("properties",.mapping [("all",.mapping [("items",schemaNode "Money")])])]),
    ("Money",.mapping [("properties",.mapping [("parts",.mapping [("allOf",.sequence [schemaNode "Money"])])])]),
    ("Problem",.mapping [("properties",.mapping [("text",.mapping [("type",.scalar "string")])])])])])]

theorem componentWord {r : String} (word : (r.toList.all fun c => c != '/' && c != '~') = true) : Word r := by
  have all := List.all_eq_true.mp word
  exact ⟨fun mem => absurd (all _ mem) (by decide),fun mem => absurd (all _ mem) (by decide)⟩

theorem bareObject {p : List (String × Node)} (none' : p.lookup "$ref" = none) : ∀ v, p.lookup "$ref" = some v → ∃ r, v = Node.scalar r :=
  fun _ found => absurd (none'.symm.trans found) (Option.some_ne_none _).symm

def moneyComponents : List (String × String) :=
  [("responses","Failure"),("schemas","Filter"),("schemas","Balance"),("schemas","Money"),("schemas","Problem")]

theorem moneyFollows {r : String} :
    (Follows moneyDocument "requestBody" r → r ∈ ["Filter","Money"].map (schemaRefPrefix ++ ·)) ∧
    (Follows moneyDocument "responses" r →
      r ∈ componentRef "responses" "Failure"::["Balance","Money","Problem"].map (schemaRefPrefix ++ ·)) :=
  ⟨followsListed (by decide +kernel) (by decide +kernel),followsListed (by decide +kernel) (by decide +kernel)⟩

def saveDocument : Node := .mapping [
  ("paths",.mapping [("/v1/save",.mapping [("post",.mapping [
    ("requestBody",componentNode "requestBodies" "Save"),("responses",.mapping [("200",jsonContent (schemaNode "Money"))])])])]),
  ("components",.mapping [("requestBodies",.mapping [("Save",jsonContent (schemaNode "Money"))]),("schemas",.mapping [
    ("Money",.mapping [("properties",.mapping [("amount",.mapping [("type",.scalar "string")])])])])])]

theorem saveSame : Required (fun _ => none) [] saveDocument = saveDocument := by
  have none' (schemas : Node) : reachable saveDocument schemas "requestBody" = [] := by
    have roots : rootRefs saveDocument "requestBody" = [] := by decide +kernel
    rw [reachable,roots]
    exact reach.eq_1 _ _
  unfold Required
  simp only [none']
  rfl

end Whole
end DevkitCommon.Apidoc
