import DevkitCommon.Apidoc.Prefixed

/-! What the texts of a file become: its references lead where its components are put, and nothing
else of a node changes where no other text is renamed. -/
namespace DevkitCommon.Apidoc.Directory
open DevkitCommon.Yaml DevkitCommon.Pairs

section Nodes
variable {f : String → String} {t u : String → Node}

def KeepsRef (f : String → String) : Prop := ∀ k, f k = "$ref" ↔ k = "$ref"

theorem refOfTexts (keeps : KeepsRef f) (k : String) (v : Node) : refOf (f k) (texts f v) = (refOf k v).map f := by
  cases v with
  | scalar ref =>
    unfold refOf
    rw [texts]
    dsimp only
    by_cases key : k = "$ref"
    · rw [if_pos key,if_pos ((keeps k).mpr key)]
      rfl
    · rw [if_neg key,if_neg fun is => key ((keeps k).mp is)]
      rfl
  | sequence items => rfl
  | mapping members => rfl

mutual
theorem refsTexts (keeps : KeepsRef f) : (n : Node) → refs (texts f n) = (refs n).map f
  | .scalar _ => rfl
  | .sequence items => refsTextsItems keeps items
  | .mapping members => refsTextsMembers keeps members
theorem refsTextsItems (keeps : KeepsRef f) : (items : List Node) → refsItems (textsItems f items) = (refsItems items).map f
  | [] => rfl
  | n::rest => by rw [textsItems,refsItems,refsItems,List.map_append,refsTexts keeps n,refsTextsItems keeps rest]
theorem refsTextsMembers (keeps : KeepsRef f) : (members : List (String × Node)) →
    refsMembers (textsMembers f members) = (refsMembers members).map f
  | [] => rfl
  | (k,v)::rest => by
    rw [textsMembers,refsMembers,refsMembers,List.map_append,refsTextsMembers keeps rest,refOfTexts keeps k v]
    cases refOf k v with
    | some ref => rfl
    | none => exact congrArg (· ++ (refsMembers rest).map f) (refsTexts keeps v)
end

mutual
theorem grownTexts (keeps : KeepsRef f) : (n : Node) → (∀ v ∈ others n, f v = v) → grown t (texts f n) = grown (fun r => t (f r)) n
  | .scalar v,plain => congrArg Node.scalar (plain v List.mem_cons_self)
  | .sequence items,plain => congrArg Node.sequence (grownTextsItems keeps items plain)
  | .mapping members,plain => congrArg Node.mapping (grownTextsMembers keeps members plain)
theorem grownTextsItems (keeps : KeepsRef f) : (items : List Node) → (∀ v ∈ othersItems items, f v = v) →
    grownItems t (textsItems f items) = grownItems (fun r => t (f r)) items
  | [],_ => rfl
  | n::rest,plain => congrArg₂ List.cons (grownTexts keeps n fun v mem => plain v (List.mem_append_left _ mem))
      (grownTextsItems keeps rest fun v mem => plain v (List.mem_append_right _ mem))
theorem grownTextsMembers (keeps : KeepsRef f) : (members : List (String × Node)) → (∀ v ∈ othersMembers members, f v = v) →
    grownMembers t (textsMembers f members) = grownMembers (fun r => t (f r)) members
  | [],_ => rfl
  | (k,v)::rest,plain => by
    have later := grownTextsMembers keeps rest fun w mem => plain w (List.mem_cons_of_mem k (List.mem_append_right _ mem))
    have key : f k = k := plain k List.mem_cons_self
    rw [textsMembers,grownMembers,grownMembers,later,refOfTexts keeps k v,key]
    refine congrArg (fun n => (k,n)::_) ?_
    cases is : refOf k v with
    | some ref => rfl
    | none =>
      refine grownTexts keeps v fun w mem => plain w (List.mem_cons_of_mem k (List.mem_append_left _ ?_))
      rw [is]
      exact mem
end

mutual
theorem grownPlain (keeps : KeepsRef f) : (n : Node) → grown (fun _ => cut) (texts f n) = grown (fun _ => cut) n →
    ∀ v ∈ others n, f v = v
  | .scalar _,same => fun _ mem => List.mem_singleton.mp mem ▸ Node.scalar.inj same
  | .sequence items,same => grownPlainItems keeps items (Node.sequence.inj same)
  | .mapping members,same => grownPlainMembers keeps members (Node.mapping.inj same)
theorem grownPlainItems (keeps : KeepsRef f) : (items : List Node) →
    grownItems (fun _ => cut) (textsItems f items) = grownItems (fun _ => cut) items → ∀ v ∈ othersItems items, f v = v
  | [],_ => fun _ mem => absurd mem List.not_mem_nil
  | n::rest,same => by
    obtain ⟨here,later⟩ := List.cons.inj same
    exact List.forall_mem_append.mpr ⟨grownPlain keeps n here,grownPlainItems keeps rest later⟩
theorem grownPlainMembers (keeps : KeepsRef f) : (members : List (String × Node)) →
    grownMembers (fun _ => cut) (textsMembers f members) = grownMembers (fun _ => cut) members →
      ∀ v ∈ othersMembers members, f v = v
  | [],_ => fun _ mem => absurd mem List.not_mem_nil
  | (k,v)::rest,same => by
    rw [textsMembers,grownMembers,grownMembers,refOfTexts keeps k v] at same
    obtain ⟨here,later⟩ := List.cons.inj same
    obtain ⟨key,value⟩ := Prod.mk.inj here
    refine List.forall_mem_cons.mpr ⟨key,List.forall_mem_append.mpr ⟨?_,grownPlainMembers keeps rest later⟩⟩
    cases is : refOf k v with
    | some ref => exact fun _ mem => absurd mem List.not_mem_nil
    | none =>
      rw [is] at value
      exact grownPlain keeps v value
end

mutual
theorem grownSame : (n : Node) → (∀ r ∈ refs n, t r = u r) → grown t n = grown u n
  | .scalar _,_ => rfl
  | .sequence items,same => congrArg Node.sequence (grownSameItems items same)
  | .mapping members,same => congrArg Node.mapping (grownSameMembers members same)
theorem grownSameItems : (items : List Node) → (∀ r ∈ refsItems items, t r = u r) → grownItems t items = grownItems u items
  | [],_ => rfl
  | n::rest,same => congrArg₂ List.cons (grownSame n fun r mem => same r (List.mem_append_left _ mem))
      (grownSameItems rest fun r mem => same r (List.mem_append_right _ mem))
theorem grownSameMembers : (members : List (String × Node)) → (∀ r ∈ refsMembers members, t r = u r) →
    grownMembers t members = grownMembers u members
  | [],_ => rfl
  | (k,v)::rest,same => by
    have later := grownSameMembers rest fun r mem => same r (List.mem_append_right _ mem)
    rw [grownMembers,grownMembers,later]
    refine congrArg (fun n => (k,n)::_) ?_
    rw [refsMembers] at same
    cases is : refOf k v with
    | some ref =>
      rw [is] at same
      exact same ref (List.mem_append_left _ List.mem_cons_self)
    | none =>
      rw [is] at same
      exact grownSame v fun r mem => same r (List.mem_append_left _ mem)
end

theorem exchangeTexts (fixed : ∀ k p, Named p → (f k = p ↔ k = p)) (op : Node) : exchange (texts f op) = texts f (exchange op) := by
  cases op with
  | scalar v => rfl
  | sequence items => rfl
  | mapping ms =>
    have parts : Named "parameters" ∧ Named "requestBody" ∧ Named "responses" := by
      unfold Named
      decide +kernel
    obtain ⟨parameters,body,responses⟩ := parts
    rw [exchange,texts,texts,textsMap,textsMap,exchange,List.filter_map]
    refine congrArg Node.mapping (congrArg _ (List.filter_congr fun m _ => ?_))
    change (_ || _ || _) = (_ || _ || _)
    simp only [fixed _ _ parameters,fixed _ _ body,fixed _ _ responses]

end Nodes
section Places
variable {f : Source} {kind name ref v : String} {s : Node}

theorem newCases (f : Source) (v : String) : (f.renames.lookup v = none ∧ f.new v = v) ∨
    ∃ m, v = schemaRefPrefix ++ m ∧ f.new v = schemaRefPrefix ++ f.ns ++ "." ++ m ∧ f.renames.lookup v ≠ none := by
  unfold Source.new renameText
  cases found : f.renames.lookup v with
  | none => exact .inl ⟨rfl,rfl⟩
  | some w =>
    refine .inr ?_
    rcases prefixedCases f with ⟨_,empty,_⟩ | ⟨schemas,_,renames,_⟩
    · rw [empty] at found
      cases found
    · obtain ⟨before,after,list,_⟩ := List.lookup_eq_some_iff.mp found
      have mem : (v,w) ∈ renamed f.ns schemas := by
        rw [← renames,list]
        exact List.mem_append_right _ List.mem_cons_self
      obtain ⟨m,_,same⟩ := List.mem_map.mp mem
      obtain ⟨rfl,rfl⟩ := Prod.mk.inj same
      exact ⟨m.1,rfl,rfl,Option.some_ne_none _⟩

theorem unnamedPath (rest : String) : ¬ Named (schemaRefPrefix ++ rest) := by
  intro named
  refine named ?_
  rw [String.toList_append]
  rfl

theorem newNamed (f : Source) (v p : String) (named : Named p) : f.new v = p ↔ v = p := by
  rcases newCases f v with ⟨_,same⟩ | ⟨m,old,new,_⟩
  · rw [same]
  · constructor
    · rintro rfl
      rw [new,String.append_assoc,String.append_assoc] at named
      exact absurd named (unnamedPath _)
    · rintro rfl
      rw [old] at named
      exact absurd named (unnamedPath _)

theorem newKeeps (f : Source) : KeepsRef f.new := by
  have named : Named "$ref" := by
    unfold Named
    decide +kernel
  exact fun k => newNamed f k "$ref" named

theorem newPlain (f : Source) (v : String) : f.new v = v ↔ f.renames.lookup v = none := by
  rcases newCases f v with ⟨none,same⟩ | ⟨m,old,new,some⟩
  · exact iff_of_true same none
  · refine iff_of_false (fun is => ?_) some
    rw [old] at new is
    have chars := congrArg (fun t => t.toList.length) (new.symm.trans is)
    simp only [String.toList_append,List.length_append] at chars
    have dot : ".".toList.length = 1 := rfl
    omega

theorem placeIs (simple : ∀ c ∈ kind.toList, c ≠ '/') (name : String) :
    place (componentsRef ++ kind ++ "/" ++ name) = some (kind,name) := by
  have chars : (componentsRef ++ kind ++ "/" ++ name).toList = componentsRef.toList ++ (kind.toList ++ '/'::name.toList) := by
    rw [String.toList_append,String.toList_append,String.toList_append,List.append_assoc,List.append_assoc]
    rfl
  have all : ∀ c ∈ kind.toList, (c != '/') = true := fun c mem => bne_iff_ne.mpr (simple c mem)
  rw [place,chars,if_pos (List.isPrefixOf_iff_prefix.mpr (List.prefix_append _ _)),List.drop_left]
  dsimp only
  rw [List.dropWhile_append_of_pos all,List.takeWhile_append_of_pos all]
  change some (String.ofList (kind.toList ++ []),String.ofList name.toList) = _
  rw [List.append_nil,String.ofList_toList,String.ofList_toList]

theorem placeForm (is : place ref = some (kind,name)) :
    ref = componentsRef ++ kind ++ "/" ++ name ∧ ∀ c ∈ kind.toList, c ≠ '/' := by
  unfold place at is
  split at is
  · rename_i front
    obtain ⟨rest,chars⟩ := List.isPrefixOf_iff_prefix.mp front
    rw [← chars,List.drop_left] at is
    dsimp only at is
    split at is
    · rename_i slash last rem
      obtain ⟨rfl,rfl⟩ := Prod.mk.inj (Option.some.inj is)
      have first : (slash != '/') = false := by
        have head := List.head_dropWhile_not (fun c => c != '/') (l := rest) (by rw [rem]; exact List.cons_ne_nil _ _)
        simpa only [rem,List.head_cons] using head
      obtain rfl : slash = '/' := by simpa using first
      refine ⟨String.toList_inj.mp ?_,fun c mem => ?_⟩
      · rw [String.toList_append,String.toList_append,String.toList_append,String.toList_ofList,String.toList_ofList,← chars,
          List.append_assoc,List.append_assoc]
        refine congrArg (componentsRef.toList ++ ·) ?_
        have parts := List.takeWhile_append_dropWhile (p := fun c => c != '/') (l := rest)
        rw [rem] at parts
        rw [String.toList_ofList]
        exact parts.symm
      · rw [String.toList_ofList] at mem
        exact bne_iff_ne.mp (List.mem_takeWhile_imp (p := fun c => c != '/') mem)
    · cases is
  · cases is

theorem schemasSimple : ∀ c ∈ "schemas".toList, c ≠ '/' := by
  have simple : ("schemas".toList.all fun c => c != '/') = true := by decide +kernel
  exact fun c mem => bne_iff_ne.mp (List.all_eq_true.mp simple c mem)

theorem schemasRef (rest : String) : schemaRefPrefix ++ rest = componentsRef ++ "schemas" ++ "/" ++ rest := rfl

theorem placeNew (is : place ref = some (kind,name)) (found : component f.doc kind name = some s) :
    place (f.new ref) = some (kind,f.placed kind name) := by
  obtain ⟨form,simple⟩ := placeForm is
  rcases prefixedCases f with ⟨_,empty,stays⟩ | ⟨schemas,there,renames,placed,_⟩
  · rw [newSame empty,stays kind name s found,is]
  · rw [placed]
    by_cases schema : kind = "schemas"
    · subst schema
      rw [componentSchemas,there] at found
      rw [if_pos rfl]
      rcases newCases f ref with ⟨none,_⟩ | ⟨m,old,new,_⟩
      · have known : name ∈ (entries schemas).map Prod.fst := by
          by_contra absent
          rw [Option.bind_some,mapGet,lookupAbsent.mpr absent] at found
          cases found
        obtain ⟨m,mem,rfl⟩ := List.mem_map.mp known
        rw [renames] at none
        exact absurd form (bne_iff_ne.mp (List.lookup_eq_none_iff.mp none _ (List.mem_map_of_mem mem)))
      · have same := congrArg String.toList (form.symm.trans old)
        rw [schemasRef] at same
        simp only [String.toList_append] at same
        obtain rfl := String.toList_inj.mp (List.append_cancel_left same)
        rw [new,String.append_assoc,String.append_assoc,schemasRef,placeIs simple,← String.append_assoc]
    · rw [if_neg schema]
      rcases newCases f ref with ⟨_,same⟩ | ⟨m,old,_⟩
      · rw [same,is]
      · rw [old,schemasRef,placeIs schemasSimple] at is
        exact absurd (congrArg Prod.fst (Option.some.inj is)).symm schema

end Places
end DevkitCommon.Apidoc.Directory
