import DevkitCommon.Apidoc.Unfold
import DevkitCommon.Lib.Pairs

/-! What the marks of a schema leave as it was: its tree but for the marks, and the
schemas it refers to. -/
namespace DevkitCommon.Apidoc
open DevkitCommon.Yaml DevkitCommon.Reach DevkitCommon.Pairs

section Within
variable {G : String → Prop}

def Within (G : String → Prop) (n : Node) : Prop := ∀ r ∈ references n, G r

theorem withinMembers {ms : List (String × Node)} :
    Within G (.mapping ms) ↔ ∀ m ∈ ms, ∀ r ∈ referencesOf m.1 m.2, G r := by
  unfold Within
  rw [references,refsMap]
  constructor
  · exact fun all m mem r ref => all r (List.mem_flatMap.mpr ⟨m,mem,ref⟩)
  · intro all r ref
    obtain ⟨m,mem,ref⟩ := List.mem_flatMap.mp ref
    exact all m mem r ref

theorem withinItems {items : List Node} : Within G (.sequence items) ↔ ∀ n ∈ items, Within G n := by
  induction items with
  | nil => exact ⟨fun _ _ mem => absurd mem List.not_mem_nil,fun _ _ mem => absurd mem List.not_mem_nil⟩
  | cons n items ih =>
    rw [List.forall_mem_cons,← ih]
    unfold Within
    rw [references,referencesItems]
    exact List.forall_mem_append

theorem refsPlain {k : String} {v : Node} (plain : k ≠ "$ref" ∨ v.value = "") : referencesOf k v = references v := by
  have none : reference k v = none := by
    unfold reference
    rcases plain with other | blank
    · rw [if_neg (fun both => other both.1)]
    · rw [if_neg (fun both => both.2 blank)]
  unfold referencesOf
  rw [none]

theorem memberWithin {k : String} {v w : Node} (kept : k ≠ "$ref" ∨ w.value = v.value)
    (inside : Within G v → Within G w) (before : ∀ r ∈ referencesOf k v, G r) : ∀ r ∈ referencesOf k w, G r := by
  by_cases ref : k = "$ref"
  · have same : w.value = v.value := kept.resolve_left (fun other => other ref)
    have target : reference k w = reference k v := by
      unfold reference
      rw [same]
    unfold referencesOf at before ⊢
    rw [target]
    cases found : reference k v with
    | some r =>
      rw [found] at before
      exact before
    | none =>
      rw [found] at before
      exact inside before
  · rw [refsPlain (.inl ref)] at before ⊢
    exact inside before

theorem withinEdit {key : String} {f : Node → Node} (kept : key ≠ "$ref" ∨ ∀ v, (f v).value = v.value)
    (inside : ∀ v, Within G v → Within G (f v)) {n : Node} (before : Within G n) : Within G (edit key f n) := by
  cases n with
  | scalar v => exact before
  | sequence items =>
    rw [edit]
    rw [withinItems] at before ⊢
    fun_induction editPairs key f items with
    | case1 k v rest here =>
      obtain ⟨first,second,later⟩ := ((List.forall_mem_cons.trans (and_congr_right' List.forall_mem_cons)).mp before)
      exact List.forall_mem_cons.mpr ⟨first,List.forall_mem_cons.mpr ⟨inside v second,later⟩⟩
    | case2 k v rest here ih =>
      obtain ⟨first,second,later⟩ := ((List.forall_mem_cons.trans (and_congr_right' List.forall_mem_cons)).mp before)
      exact List.forall_mem_cons.mpr ⟨first,List.forall_mem_cons.mpr ⟨second,ih later⟩⟩
    | case3 items short => exact before
  | mapping members =>
    rw [edit]
    rw [withinMembers] at before ⊢
    induction members with
    | nil => exact before
    | cons m members ih =>
      obtain ⟨k,v⟩ := m
      obtain ⟨head,tail⟩ := List.forall_mem_cons.mp before
      rw [editFirst]
      split
      · rename_i here
        subst here
        exact List.forall_mem_cons.mpr ⟨memberWithin (kept.imp id (fun all => all v)) (inside v) head,tail⟩
      · exact List.forall_mem_cons.mpr ⟨head,ih tail⟩

theorem withinEach {f : String → Node → Node} (kept : ∀ k v, (f k v).value = v.value)
    (inside : ∀ k v, Within G v → Within G (f k v)) {n : Node} (before : Within G n) : Within G (each f n) := by
  cases n with
  | scalar v => exact before
  | sequence items =>
    rw [each]
    rw [withinItems] at before ⊢
    fun_induction eachPair f items with
    | case1 k v rest ih =>
      obtain ⟨first,second,later⟩ := ((List.forall_mem_cons.trans (and_congr_right' List.forall_mem_cons)).mp before)
      exact List.forall_mem_cons.mpr ⟨first,List.forall_mem_cons.mpr ⟨inside _ v second,ih later⟩⟩
    | case2 items short => exact before
  | mapping members =>
    rw [each]
    rw [withinMembers] at before ⊢
    intro m mem
    obtain ⟨old,found,rfl⟩ := List.mem_map.mp mem
    exact memberWithin (.inr (kept _ _)) (inside _ _) (before old found)

theorem withinAppend {key : String} {v : Node} (plain : key ≠ "$ref" ∨ v.value = "") (inside : Within G v) {n : Node}
    (before : Within G n) : Within G (append key v n) := by
  cases n with
  | scalar s => exact before
  | sequence items =>
    rw [append]
    rw [withinItems] at before ⊢
    refine List.forall_mem_append.mpr ⟨before,List.forall_mem_cons.mpr ⟨?_,List.forall_mem_singleton.mpr inside⟩⟩
    exact fun _ mem => absurd mem List.not_mem_nil
  | mapping members =>
    rw [append]
    rw [withinMembers] at before ⊢
    refine List.forall_mem_append.mpr ⟨before,List.forall_mem_singleton.mpr ?_⟩
    rw [refsPlain plain]
    exact inside

theorem withinRewrite {rename : List (String × String)} (names : ∀ a b, rename.lookup a = some b → G (schemaRefPrefix ++ b))
    {n : Node} (before : Within G n) : Within G (rewriteRefs rename n) := by
  intro r mem
  rw [rewrittenRefs] at mem
  obtain ⟨old,found,rfl⟩ := List.mem_map.mp mem
  unfold renamed
  cases other : (refTo old).bind (fun name => rename.lookup name) with
  | none => exact before old found
  | some b =>
    obtain ⟨a,-,here⟩ := Option.bind_eq_some_iff.mp other
    exact names a b here

theorem dropSub (key : String) (ms : List (String × Node)) : ∀ m ∈ dropFirst key ms, m ∈ ms := by
  induction ms with
  | nil => exact fun _ mem => mem
  | cons m ms ih =>
    obtain ⟨k,v⟩ := m
    rw [dropFirst]
    split
    · exact fun m mem => List.mem_cons_of_mem _ mem
    · intro m mem
      rcases List.mem_cons.mp mem with rfl | mem
      · exact List.mem_cons_self
      · exact List.mem_cons_of_mem _ (ih m mem)

theorem markWithin : ∀ m ∈ [("nullable",Node.scalar "true")], ∀ r ∈ referencesOf m.1 m.2, G r := by
  refine List.forall_mem_singleton.mpr ?_
  rw [refsPlain (.inl (by decide))]
  exact fun _ mem => absurd mem List.not_mem_nil

theorem withinNullable {n : Node} (before : Within G n) : Within G (setNullable n) := by
  cases n with
  | scalar v => exact before
  | sequence items => exact before
  | mapping members =>
    rw [setNullable]
    split
    · exact before
    · have all := withinMembers.mp before
      split
      · rename_i ref found
        have target : Within G (.mapping [("$ref",.scalar ref.value)]) := by
          refine withinMembers.mpr (List.forall_mem_singleton.mpr ?_)
          refine memberWithin (v := ref) (.inr rfl) (fun _ _ mem => absurd mem List.not_mem_nil) (all _ (lookupMem found))
        refine withinMembers.mpr (List.forall_mem_append.mpr ⟨List.forall_mem_cons.mpr ⟨?_,?_⟩,markWithin⟩)
        · rw [refsPlain (.inl (show "allOf" ≠ "$ref" by decide))]
          exact withinItems.mpr (List.forall_mem_singleton.mpr target)
        · exact fun m mem => all m (dropSub "$ref" members m mem)
      · exact withinMembers.mpr (List.forall_mem_append.mpr ⟨all,markWithin⟩)

theorem nullableValue (n : Node) : (setNullable n).value = n.value := by
  cases n with
  | scalar v => rfl
  | sequence items => rfl
  | mapping members =>
    rw [setNullable]
    split
    · rfl
    · split
      · rfl
      · rfl

theorem editValue (key : String) (f : Node → Node) (n : Node) : (edit key f n).value = n.value := by
  cases n with
  | scalar v => rfl
  | sequence items => rfl
  | mapping members => rfl

theorem eachValue (f : String → Node → Node) (n : Node) : (each f n).value = n.value := by
  cases n with
  | scalar v => rfl
  | sequence items => rfl
  | mapping members => rfl

theorem appendValue (key : String) (v n : Node) : (append key v n).value = n.value := by
  cases n with
  | scalar v => rfl
  | sequence items => rfl
  | mapping members => rfl

variable {zeroPasses : String → Option Bool} {structs : Structs} {request : List String}
  {original : List (String × String)} {name : String}

theorem fieldsWithin {marking : Bool} (fields : List Field) {s : Node × List String} (before : Within G s.1) :
    Within G (fields.foldl (markField zeroPasses marking) s).1 := by
  induction fields generalizing s with
  | nil => exact before
  | cons f fields ih =>
    refine ih ?_
    unfold markField
    split
    · exact before
    · split_ifs
      · exact before
      · exact withinEdit (.inr nullableValue) (fun _ => withinNullable) before
      · exact before
      · exact before

theorem namesWithin (names : List String) : Within G (.sequence (names.map .scalar)) := by
  refine withinItems.mpr (fun n mem => ?_)
  obtain ⟨name,-,rfl⟩ := List.mem_map.mp mem
  exact fun _ mem => absurd mem List.not_mem_nil

theorem entryWithin {n : Node} (before : Within G n) {k : String} {v : Node} (mem : (k,v) ∈ entries n)
    (plain : k ≠ "$ref" ∨ v.value = "") : Within G v := by
  cases n with
  | scalar s => exact absurd mem List.not_mem_nil
  | mapping members =>
    have inside := withinMembers.mp before _ mem
    rw [refsPlain plain] at inside
    exact inside
  | sequence items =>
    have all := withinItems.mp before
    replace mem : (k,v) ∈ pairUp items := mem
    clear before
    fun_induction pairUp items with
    | case1 a b rest ih =>
      rcases List.mem_cons.mp mem with same | mem
      · obtain ⟨rfl,rfl⟩ := Prod.mk.inj same
        exact all _ (List.mem_cons_of_mem _ List.mem_cons_self)
      · exact ih (fun x found => all x (List.mem_cons_of_mem _ (List.mem_cons_of_mem _ found))) mem
    | case2 items short => exact absurd mem List.not_mem_nil

theorem entriesWithin {n : Node} (before : Within G n) {k : String} {v : Node} (found : mapGet n k = some v)
    (plain : k ≠ "$ref") : Within G v := entryWithin before (lookupMem found) (.inl plain)

theorem markSchemaWithin {schema : Node} (before : Within G schema) :
    Within G (markSchema zeroPasses structs request original name schema) := by
  unfold markSchema
  split
  · rename_i fields props found properties
    split
    · exact before
    · have marked : Within G (fields.foldl (markField zeroPasses (decide (name ∈ request))) (props,[])).1 :=
        fieldsWithin fields (entriesWithin before properties (by decide))
      have edited : Within G (edit "properties" (fun _ => _) schema) :=
        withinEdit (.inl (by decide)) (fun _ _ => marked) before
      dsimp only
      split
      · exact edited
      · exact withinAppend (.inl (by decide)) (namesWithin _) edited
  · exact before

theorem markSchemaValue (schema : Node) :
    (markSchema zeroPasses structs request original name schema).value = schema.value := by
  unfold markSchema
  split
  · split
    · rfl
    · dsimp only
      split
      · exact editValue _ _ _
      · rw [appendValue,editValue]
  · rfl

end Within
section Trees
variable {t t' : String → Node} {rename : List (String × String)}

inductive Marked (rename : List (String × String)) : List (String × Node) → List (String × Node) → Prop where
  | nil : Marked rename [] []
  | cons {k v w xs ys} (head : w = rewriteMember rename k v ∨ w = setNullable (rewriteMember rename k v))
      (tail : Marked rename xs ys) : Marked rename ((k,v)::xs) ((k,w)::ys)

theorem markedNone (ms : List (String × Node)) : Marked rename ms (rewriteMembers rename ms) := by
  induction ms with
  | nil => exact .nil
  | cons m ms ih => exact .cons (.inl rfl) ih

theorem lookupLast (xs : List (String × Node)) (k : String) (v : Node) : ((xs ++ [(k,v)]).lookup k).isSome = true := by
  induction xs with
  | nil => simp only [List.nil_append,List.lookup_cons,BEq.rfl,Option.isSome_some]
  | cons m xs ih =>
    obtain ⟨n,w⟩ := m
    rw [List.cons_append,List.lookup_cons]
    split
    · rfl
    · exact ih

theorem nullableTwice (n : Node) : setNullable (setNullable n) = setNullable n := by
  cases n with
  | scalar v => rfl
  | sequence items => rfl
  | mapping ms =>
    rw [setNullable]
    split
    · rename_i marked
      rw [setNullable,if_pos marked]
    · split
      · rw [setNullable,if_pos (lookupLast _ _ _)]
      · rw [setNullable,if_pos (lookupLast _ _ _)]

theorem markedEdit {xs ys : List (String × Node)} (marked : Marked rename xs ys) (key : String) :
    Marked rename xs (editFirst key setNullable ys) := by
  induction marked with
  | nil => exact .nil
  | cons head tail ih =>
    rw [editFirst]
    split
    · refine .cons (.inr ?_) tail
      rcases head with rfl | rfl
      · rfl
      · exact nullableTwice _
    · exact .cons head ih

theorem fieldMarked {zeroPasses : String → Option Bool} {marking : Bool} (f : Field) {xs ys : List (String × Node)}
    (marked : Marked rename xs ys) (names : List String) :
    ∃ zs names', markField zeroPasses marking (.mapping ys,names) f = (.mapping zs,names') ∧ Marked rename xs zs := by
  unfold markField
  split
  · exact ⟨ys,names,rfl,marked⟩
  · split
    · exact ⟨ys,_,rfl,marked⟩
    · split
      · exact ⟨_,names,rfl,markedEdit marked f.name⟩
      · split
        · exact ⟨ys,_,rfl,marked⟩
        · exact ⟨ys,names,rfl,marked⟩

theorem fieldsMarked {zeroPasses : String → Option Bool} {marking : Bool} (fields : List Field)
    {xs ys : List (String × Node)} (marked : Marked rename xs ys) (names : List String) :
    ∃ zs, (fields.foldl (markField zeroPasses marking) (.mapping ys,names)).1 = .mapping zs ∧ Marked rename xs zs := by
  induction fields generalizing ys names with
  | nil => exact ⟨ys,rfl,marked⟩
  | cons f fields ih =>
    obtain ⟨zs,names',made,marked'⟩ := @fieldMarked _ zeroPasses marking f _ _ marked names
    rw [List.foldl_cons,made]
    exact ih marked' names'

theorem refScalar {k r : String} {v : Node} (ref : reference k v = some r) : v = .scalar r := by
  obtain ⟨-,rfl,filled⟩ := referenceKey ref
  cases v with
  | scalar r => rfl
  | sequence | mapping => exact absurd rfl filled

theorem markedSame {xs ys : List (String × Node)} (marked : Marked rename xs ys) (text : ∀ m ∈ xs, RefText m.2)
    (refs : ∀ r ∈ referencesMembers xs, Same (t r) (t' (renamed rename r))) : SameEach t t' xs ys := by
  induction marked with
  | nil => exact .nil
  | @cons k v w xs ys head tail ih =>
    have rest := ih (fun m mem => text m (List.mem_cons_of_mem _ mem)) (fun r mem => refs r (List.mem_append_right _ mem))
    refine .cons ?_ rest
    have one : SameEach t t' [(k,v)] (rewriteMembers rename [(k,v)]) := rewriteEach [(k,v)]
      (fun r mem => refs r (List.mem_append_left _ (by simpa only [referencesMembers,List.append_nil] using mem)))
    cases one with
    | cons plain' _ =>
      have plain : Same (expandMember t k v) (expandMember t' k (rewriteMember rename k v)) := plain'
      clear plain'
      rcases head with rfl | rfl
      · exact plain
      · have moved := @rewriteReference rename k v
        cases ref : reference k v with
        | some r =>
          rw [ref] at moved
          have fixed : setNullable (rewriteMember rename k v) = rewriteMember rename k v := by
            rw [refScalar moved]
            rfl
          rw [fixed]
          exact plain
        | none =>
          have same : rewriteMember rename k v = rewriteRefs rename v := by
            unfold rewriteMember
            rw [targetReference,ref]
            rfl
          rw [ref,same] at moved
          have target' : reference k (setNullable (rewriteRefs rename v)) = none := by
            unfold reference at moved ⊢
            rw [nullableValue]
            exact moved
          rw [same] at plain ⊢
          unfold expandMember at plain ⊢
          rw [ref,moved] at plain
          rw [ref,target']
          refine samePlainNullable plain (fun ms same => ?_) (textRewritten (text (k,v) List.mem_cons_self))
          cases v with
          | scalar r => exact absurd same (by rw [rewriteRefs]; exact Node.noConfusion)
          | sequence items => exact absurd same (by rw [rewriteRefs]; exact Node.noConfusion)
          | mapping members =>
            rw [rewriteRefs] at same
            cases same
            refine ⟨members,rfl,rewriteEach members (fun r mem => refs r (List.mem_append_left _ ?_))⟩
            rw [ref]
            exact mem

/- What the format says of a schema: it is a mapping, its properties are one, and a
reference is a text. -/
structure SchemaObject (schema : Node) : Prop where
  mapping : ∃ ms, schema = .mapping ms
  properties : ∀ props, mapGet schema "properties" = some props → ∃ ps, props = .mapping ps ∧ ∀ p ∈ ps, RefText p.2

theorem refsLookup {ms : List (String × Node)} {k : String} {v : Node} (found : ms.lookup k = some v) :
    ∀ r ∈ referencesOf k v, r ∈ referencesMembers ms := by
  intro r mem
  rw [refsMap]
  exact List.mem_flatMap.mpr ⟨(k,v),lookupMem found,mem⟩

variable {zeroPasses : String → Option Bool} {structs : Structs} {request : List String}
  {original : List (String × String)} {name : String}

theorem sameMark {schema : Node} (object : SchemaObject schema)
    (refs : ∀ r ∈ references schema, Same (t r) (t' (renamed rename r))) :
    Same (expand t schema) (expand t' (markSchema zeroPasses structs request original name (rewriteRefs rename schema))) := by
  obtain ⟨ms,rfl⟩ := object.mapping
  have plain : Same (expand t (.mapping ms)) (expand t' (rewriteRefs rename (.mapping ms))) := sameRewrite (.mapping ms) refs
  have each : SameEach t t' ms (rewriteMembers rename ms) := rewriteEach ms refs
  unfold markSchema
  split
  · rename_i fields props _ properties
    split
    · exact plain
    · rename_i empty
      have bare : (rewriteMembers rename ms).lookup "required" = none := by
        cases found : (rewriteMembers rename ms).lookup "required" with
        | none => rfl
        | some v =>
          have has : (mapGet (rewriteRefs rename (.mapping ms)) "required").isSome = true := by
            unfold mapGet entries
            rw [rewriteRefs]
            exact congrArg Option.isSome found
          rw [has,Bool.or_true] at empty
          exact absurd rfl empty
      have here : (rewriteMembers rename ms).lookup "properties" = some props := properties
      rw [rewriteMap,lookupMap ms (rewriteMember rename)] at here
      obtain ⟨old,found,made⟩ := Option.map_eq_some_iff.mp here
      obtain ⟨ps,rfl,text⟩ := object.properties old found
      have inside : ∀ r ∈ referencesMembers ps, r ∈ referencesMembers ms := by
        have all := refsLookup found
        rw [refsPlain (.inl (by decide))] at all
        exact all
      have plainProps : rewriteMember rename "properties" (.mapping ps) = .mapping (rewriteMembers rename ps) := by
        unfold rewriteMember refTarget
        rw [if_neg (by decide)]
        exact rewriteRefs.eq_3 rename ps
      obtain ⟨qs,last,marked⟩ := @fieldsMarked rename zeroPasses (decide (name ∈ request)) fields _ _ (markedNone ps) []
      rw [← plainProps,made] at last
      have props' : SameEach t t' ps qs := markedSame marked text (fun r mem => refs r (inside r mem))
      have edited : SameEach t t' ms (editFirst "properties" (fun _ => .mapping qs) (rewriteMembers rename ms)) := by
        refine sameEdit each "properties" (fun v w first _ _ => ?_)
        rw [found] at first
        obtain rfl := Option.some.inj first
        rw [expandPlain t (by decide),expandPlain t' (by decide)]
        exact .mapping (sameMembers props')
      dsimp only
      rw [last]
      split
      · exact .mapping (sameMembers edited)
      · have absent : (expandMembers t ms).lookup "required" = none := by
          rw [expandLookup]
          rcases sameLookup each "required" with none | some
          · rw [none.1,Option.map_none]
          · obtain ⟨v,w,-,there,-⟩ := some
            exact absurd (there.symm.trans bare) (Option.some_ne_none _)
        rw [rewriteRefs,edit,append,expand,expand,expandAppend]
        have names : ∀ names : List String, expandMembers t' [("required",.sequence (names.map .scalar))] =
            [("required",.sequence (names.map .scalar))] := fun names => by
          rw [expandMap,List.map_singleton,expandPlain t' (show "required" ≠ "$ref" by decide),expand]
          refine congrArg (fun l => [("required",Node.sequence l)]) ?_
          induction names with
          | nil => rfl
          | cons n names ih =>
            rw [List.map_cons,expandItems,expand,ih]
        rw [names]
        exact .required _ absent (sameMembers edited)
  · exact plain

end Trees
end DevkitCommon.Apidoc
