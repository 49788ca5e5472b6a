import Mathlib.Data.List.Basic

/-! Documents as trees of scalars, lists and members by name, read and edited as the
pairs they stand in. -/
namespace DevkitCommon.Yaml

inductive Node where
  | scalar (v : String)
  | sequence (items : List Node)
  | mapping (members : List (String × Node))

def Node.value : Node → String
  | .scalar v => v
  | _ => ""

def pairUp : List Node → List (String × Node)
  | k::v::rest => (k.value,v)::pairUp rest
  | _ => []

def entries : Node → List (String × Node)
  | .mapping members => members
  | .sequence items => pairUp items
  | .scalar _ => []

def editFirst (key : String) (f : Node → Node) : List (String × Node) → List (String × Node)
  | [] => []
  | (k,v)::rest => if k = key then (k,f v)::rest else (k,v)::editFirst key f rest

def editPairs (key : String) (f : Node → Node) : List Node → List Node
  | k::v::rest => if k.value = key then k::f v::rest else k::v::editPairs key f rest
  | items => items

def edit (key : String) (f : Node → Node) : Node → Node
  | .mapping members => .mapping (editFirst key f members)
  | .sequence items => .sequence (editPairs key f items)
  | .scalar v => .scalar v

def eachPair (f : String → Node → Node) : List Node → List Node
  | k::v::rest => k::f k.value v::eachPair f rest
  | items => items

def each (f : String → Node → Node) : Node → Node
  | .mapping members => .mapping (members.map (fun m => (m.1,f m.1 m.2)))
  | .sequence items => .sequence (eachPair f items)
  | .scalar v => .scalar v

def append (key : String) (v : Node) : Node → Node
  | .mapping members => .mapping (members ++ [(key,v)])
  | .sequence items => .sequence (items ++ [.scalar key,v])
  | .scalar s => .scalar s

def dropFirst (key : String) : List (String × Node) → List (String × Node)
  | [] => []
  | (k,v)::rest => if k = key then rest else (k,v)::dropFirst key rest

def field : Node → String → Option Node
  | .mapping members,key => members.lookup key
  | _,_ => none

def isMapping : Node → Bool
  | .mapping _ => true
  | _ => false

def build (key : String) (f : Node → Node) (n : Node) : Node :=
  match (entries n).lookup key with
  | some _ => edit key f n
  | none => append key (f (.mapping [])) n

def buildAll (f : Node → Node) : List String → Node → Node
  | [] => f
  | key::keys => build key (buildAll f keys)

def fieldAt : List String → Node → Option Node
  | [],n => some n
  | key::keys,n => (field n key).bind (fieldAt keys)

def levelAt : List String → Node → Node
  | [],n => n
  | key::keys,n => levelAt keys ((field n key).getD (.mapping []))

def Open : List String → Node → Prop
  | [],n => isMapping n = true
  | key::keys,n => isMapping n = true ∧ Open keys ((field n key).getD (.mapping []))

section Edits
variable {key : String} {f : Node → Node}

theorem lookupEdit (members : List (String × Node)) (k : String) :
    (editFirst key f members).lookup k = if k = key then (members.lookup k).map f else members.lookup k := by
  induction members with
  | nil => simp only [editFirst,List.lookup_nil,Option.map_none,ite_self]
  | cons m members ih =>
    obtain ⟨n,v⟩ := m
    rw [editFirst]
    by_cases here : n = key
    · subst here
      rw [if_pos rfl,List.lookup_cons,List.lookup_cons]
      by_cases same : k = n
      · subst same
        simp only [BEq.rfl,if_true,Option.map_some]
      · have other : (k == n) = false := beq_eq_false_iff_ne.mpr same
        simp only [other,if_neg same]
    · rw [if_neg here,List.lookup_cons,List.lookup_cons,ih]
      by_cases same : k = n
      · subst same
        simp only [BEq.rfl,if_neg here]
      · have other : (k == n) = false := beq_eq_false_iff_ne.mpr same
        simp only [other]

theorem pairUpEdit (items : List Node) : pairUp (editPairs key f items) = editFirst key f (pairUp items) := by
  fun_induction editPairs key f items with
  | case1 k v rest here => rw [pairUp,pairUp,editFirst,if_pos here]
  | case2 k v rest here ih => rw [pairUp,pairUp,editFirst,if_neg here,ih]
  | case3 items short =>
    have none : pairUp items = [] := by
      rw [pairUp]
      exact short
    rw [none,editFirst]

theorem entriesEdit (n : Node) : entries (edit key f n) = editFirst key f (entries n) := by
  cases n with
  | scalar v => rfl
  | sequence items => exact pairUpEdit items
  | mapping members => rfl

theorem pairUpEach (g : String → Node → Node) (items : List Node) :
    pairUp (eachPair g items) = (pairUp items).map (fun m => (m.1,g m.1 m.2)) := by
  fun_induction eachPair g items with
  | case1 k v rest ih => rw [pairUp,pairUp,List.map_cons,ih]
  | case2 items short =>
    have none : pairUp items = [] := by
      rw [pairUp]
      exact short
    rw [none,List.map_nil]

theorem entriesEach (g : String → Node → Node) (n : Node) :
    entries (each g n) = (entries n).map (fun m => (m.1,g m.1 m.2)) := by
  cases n with
  | scalar v => rfl
  | sequence items => exact pairUpEach g items
  | mapping members => rfl

theorem lookupMap {β : Type} (members : List (String × Node)) (g : String → Node → β) (k : String) :
    (members.map (fun m => (m.1,g m.1 m.2))).lookup k = (members.lookup k).map (g k) := by
  induction members with
  | nil => rfl
  | cons m members ih =>
    rw [List.map_cons,List.lookup_cons,List.lookup_cons,ih]
    by_cases same : k = m.1
    · subst same
      simp only [BEq.rfl,Option.map_some]
    · have other : (k == m.1) = false := beq_eq_false_iff_ne.mpr same
      simp only [other]

theorem editFirstId (members : List (String × Node)) : editFirst key id members = members := by
  induction members with
  | nil => rfl
  | cons m members ih =>
    obtain ⟨k,v⟩ := m
    rw [editFirst,ih]
    exact ite_self _

theorem editFirstSame {g : Node → Node} (members : List (String × Node)) :
    editFirst key f members = editFirst key g members ↔ ∀ v, members.lookup key = some v → f v = g v := by
  induction members with
  | nil => exact ⟨fun _ v found => absurd found (Option.some_ne_none v).symm,fun _ => rfl⟩
  | cons m members ih =>
    obtain ⟨k,v⟩ := m
    rw [editFirst,editFirst,List.lookup_cons]
    by_cases here : k = key
    · subst here
      rw [if_pos rfl,if_pos rfl,BEq.rfl]
      constructor
      · intro same w found
        cases found
        exact (Prod.mk.inj (List.cons.inj same).1).2
      · intro same
        rw [same v rfl]
    · have other : (key == k) = false := beq_eq_false_iff_ne.mpr (Ne.symm here)
      rw [if_neg here,if_neg here,other,List.cons_eq_cons,← ih]
      exact and_iff_right rfl

theorem editPairsSame {g : Node → Node} (items : List Node)
    (same : ∀ v, (pairUp items).lookup key = some v → f v = g v) : editPairs key f items = editPairs key g items := by
  fun_induction editPairs key f items with
  | case1 k v rest here =>
    rw [editPairs,if_pos here,same v (by rw [pairUp,List.lookup_cons,here,BEq.rfl])]
  | case2 k v rest here ih =>
    have other : (key == k.value) = false := beq_eq_false_iff_ne.mpr (Ne.symm here)
    rw [editPairs,if_neg here,ih (fun w found => same w (by rw [pairUp,List.lookup_cons,other]; exact found))]
  | case3 items short =>
    rw [editPairs]
    exact short

theorem editSame {g : Node → Node} (n : Node) :
    edit key f n = edit key g n ↔ ∀ v, (entries n).lookup key = some v → f v = g v := by
  constructor
  · intro same
    have members := congrArg entries same
    rw [entriesEdit,entriesEdit] at members
    exact (editFirstSame _).mp members
  · intro same
    cases n with
    | scalar v => rfl
    | sequence items => exact congrArg Node.sequence (editPairsSame items same)
    | mapping members => exact congrArg Node.mapping ((editFirstSame members).mpr same)

theorem eachPairSame {f g : String → Node → Node} (items : List Node) (same : ∀ m ∈ pairUp items, f m.1 m.2 = g m.1 m.2) :
    eachPair f items = eachPair g items := by
  fun_induction eachPair f items with
  | case1 k v rest ih =>
    rw [pairUp] at same
    rw [eachPair,ih (fun m mem => same m (List.mem_cons_of_mem _ mem)),same _ List.mem_cons_self]
  | case2 items short =>
    rw [eachPair]
    exact short

theorem eachSame {f g : String → Node → Node} (n : Node) :
    each f n = each g n ↔ ∀ m ∈ entries n, f m.1 m.2 = g m.1 m.2 := by
  constructor
  · intro same m mem
    have members := congrArg entries same
    rw [entriesEach,entriesEach] at members
    exact (Prod.mk.inj (List.map_inj_left.mp members m mem)).2
  · intro same
    cases n with
    | scalar v => rfl
    | sequence items => exact congrArg Node.sequence (eachPairSame items same)
    | mapping members =>
      exact congrArg Node.mapping (List.map_congr_left fun m mem => congrArg (Prod.mk m.1) (same m mem))

theorem editPairsTwice {g : Node → Node} (items : List Node) :
    editPairs key f (editPairs key g items) = editPairs key (fun v => f (g v)) items := by
  fun_induction editPairs key g items with
  | case1 k v rest here => rw [editPairs,editPairs,if_pos here,if_pos here]
  | case2 k v rest here ih => rw [editPairs,editPairs,if_neg here,if_neg here,ih]
  | case3 items short =>
    rw [editPairs,editPairs]
    · exact short
    · exact short

theorem editFirstTwice {g : Node → Node} (members : List (String × Node)) :
    editFirst key f (editFirst key g members) = editFirst key (fun v => f (g v)) members := by
  induction members with
  | nil => rfl
  | cons m members ih =>
    obtain ⟨k,v⟩ := m
    rw [editFirst,editFirst]
    by_cases here : k = key
    · rw [if_pos here,if_pos here,editFirst,if_pos here]
    · rw [if_neg here,if_neg here,editFirst,if_neg here,ih]

theorem editTwice {g : Node → Node} (n : Node) : edit key f (edit key g n) = edit key (fun v => f (g v)) n := by
  cases n with
  | scalar v => rfl
  | sequence items => exact congrArg Node.sequence (editPairsTwice items)
  | mapping members => exact congrArg Node.mapping (editFirstTwice members)

theorem eachPairTwice {f g : String → Node → Node} (items : List Node) :
    eachPair f (eachPair g items) = eachPair (fun k v => f k (g k v)) items := by
  fun_induction eachPair g items with
  | case1 k v rest ih => rw [eachPair,eachPair,ih]
  | case2 items short =>
    rw [eachPair,eachPair]
    · exact short
    · exact short

theorem eachTwice {f g : String → Node → Node} (n : Node) : each f (each g n) = each (fun k v => f k (g k v)) n := by
  cases n with
  | scalar v => rfl
  | sequence items => exact congrArg Node.sequence (eachPairTwice items)
  | mapping members => exact congrArg Node.mapping (List.map_map ..)

end Edits
section Levels
variable {key : String} {f : Node → Node} {n : Node} {members : List (String × Node)}

theorem mappingForm (is : isMapping n = true) : ∃ members, n = .mapping members := by
  cases n with
  | mapping members => exact ⟨members,rfl⟩
  | scalar | sequence => cases is

theorem noField (not : isMapping n = false) (key : String) : field n key = none := by
  cases n with
  | mapping members => cases not
  | scalar | sequence => rfl

theorem buildMapping : isMapping (build key f n) = isMapping n := by
  unfold build
  cases n <;> cases (entries _).lookup key <;> rfl

theorem fieldBuild : field (build key f (.mapping members)) key = some (f ((members.lookup key).getD (.mapping []))) := by
  unfold build
  rw [entries]
  cases found : members.lookup key with
  | some v =>
    change (editFirst key f members).lookup key = _
    rw [lookupEdit,if_pos rfl,found]
    rfl
  | none =>
    change (members ++ [(key,f (.mapping []))]).lookup key = _
    rw [List.lookup_append,found,List.lookup_cons,BEq.rfl]
    rfl

theorem fieldBuildOther {k : String} (other : k ≠ key) : field (build key f n) k = field n k := by
  unfold build
  cases n with
  | scalar v => cases (entries (.scalar v)).lookup key <;> rfl
  | sequence items => cases (entries (.sequence items)).lookup key <;> rfl
  | mapping members =>
    cases (entries (.mapping members)).lookup key with
    | some v =>
      change (editFirst key f members).lookup k = members.lookup k
      rw [lookupEdit,if_neg other]
    | none =>
      change (members ++ [(key,f (.mapping []))]).lookup k = members.lookup k
      rw [List.lookup_append,List.lookup_cons,beq_eq_false_iff_ne.mpr other]
      exact Option.or_none

theorem buildTwice : build key f (build key f (.mapping members)) = build key f (.mapping members) ↔
    f (f ((members.lookup key).getD (.mapping []))) = f ((members.lookup key).getD (.mapping [])) := by
  have there : field (build key f (.mapping members)) key = _ := fieldBuild
  constructor
  · intro same
    have kept : isMapping (build key f (.mapping members)) = true := buildMapping
    obtain ⟨built,is⟩ := mappingForm kept
    rw [is] at same there
    have twice : field (build key f (.mapping built)) key = _ := fieldBuild
    have found : built.lookup key = some (f ((members.lookup key).getD (.mapping []))) := there
    rw [same,there,found] at twice
    exact (Option.some.inj twice).symm
  · intro same
    unfold build
    rw [entries]
    cases found : members.lookup key with
    | some v =>
      rw [found] at same
      have again : (entries (edit key f (.mapping members))).lookup key = some (f v) := by
        rw [entriesEdit,lookupEdit,if_pos rfl,entries,found]
        rfl
      rw [again]
      dsimp only
      rw [editTwice,editSame]
      intro w here
      cases found.symm.trans here
      exact same
    | none =>
      rw [found] at same
      have again : (entries (append key (f (.mapping [])) (.mapping members))).lookup key = some (f (.mapping [])) := by
        change (members ++ [(key,f (.mapping []))]).lookup key = _
        rw [List.lookup_append,found,List.lookup_cons,BEq.rfl]
        rfl
      rw [again]
      dsimp only
      have keep : edit key f (append key (f (.mapping [])) (.mapping members)) =
          edit key id (append key (f (.mapping [])) (.mapping members)) := by
        rw [editSame]
        intro w here
        cases again.symm.trans here
        exact same
      rw [keep]
      exact congrArg Node.mapping (editFirstId _)

theorem levelMapping {keys : List String} (open' : Open keys n) : isMapping (levelAt keys n) = true := by
  induction keys generalizing n with
  | nil => exact open'
  | cons key keys ih => exact ih open'.2

theorem fieldAtAll {keys : List String} (open' : Open keys n) : fieldAt keys (buildAll f keys n) = some (f (levelAt keys n)) := by
  induction keys generalizing n with
  | nil => rfl
  | cons key keys ih =>
    obtain ⟨is,below⟩ := open'
    obtain ⟨members,rfl⟩ := mappingForm is
    have here : field (build key (buildAll f keys) (.mapping members)) key = _ := fieldBuild
    rw [fieldAt,buildAll,here]
    exact ih below

theorem closedAll {keys : List String} (keeps : ∀ n, isMapping (f n) = isMapping n) (closed : ¬ Open keys n) :
    ∀ m, fieldAt keys (buildAll f keys n) = some m → isMapping m = false := by
  induction keys generalizing n with
  | nil =>
    rintro m ⟨⟩
    exact (keeps n).trans (Bool.eq_false_iff.mpr closed)
  | cons key keys ih =>
    intro m found
    cases is : isMapping n with
    | false =>
      rw [fieldAt,buildAll,noField (buildMapping.trans is)] at found
      cases found
    | true =>
      obtain ⟨members,rfl⟩ := mappingForm is
      have here : field (build key (buildAll f keys) (.mapping members)) key = _ := fieldBuild
      rw [fieldAt,buildAll,here] at found
      exact ih (fun below => closed ⟨is,below⟩) m found

theorem allMapping {keys : List String} (keeps : ∀ n, isMapping (f n) = isMapping n) :
    isMapping (buildAll f keys n) = isMapping n := by
  cases keys with
  | nil => exact keeps n
  | cons key keys => exact buildMapping

theorem allTwice {keys : List String} (open' : Open keys n) :
    buildAll f keys (buildAll f keys n) = buildAll f keys n ↔ f (f (levelAt keys n)) = f (levelAt keys n) := by
  induction keys generalizing n with
  | nil => exact Iff.rfl
  | cons key keys ih =>
    obtain ⟨is,below⟩ := open'
    obtain ⟨members,rfl⟩ := mappingForm is
    exact buildTwice.trans (ih below)

theorem readBelow {β : Type} {keys : List String} {g : Node → Option β} (empty : g (.mapping []) = none) (open' : Open keys n) :
    (fieldAt keys n).bind g = g (levelAt keys n) := by
  induction keys generalizing n with
  | nil => rfl
  | cons k keys ih =>
    obtain ⟨is,below⟩ := open'
    obtain ⟨members,rfl⟩ := mappingForm is
    rw [fieldAt,levelAt]
    cases found : field (.mapping members) k with
    | some v =>
      rw [found] at below
      exact ih below
    | none =>
      have last (keys : List String) : levelAt keys (.mapping []) = .mapping [] := by
        induction keys with
        | nil => rfl
        | cons k keys ih => exact ih
      exact (congrArg g (last keys)).trans empty |>.symm

theorem openOther {k : String} {keys : List String} (other : k ≠ key) :
    Open (k::keys) (build key f n) ↔ Open (k::keys) n := by
  rw [Open,Open,buildMapping,fieldBuildOther other]

theorem levelOther {k : String} {keys : List String} (other : k ≠ key) :
    levelAt (k::keys) (build key f n) = levelAt (k::keys) n := by
  rw [levelAt,levelAt,fieldBuildOther other]

theorem buildHas {v : Node} (found : field n key = some v) (same : f v = v) : build key f n = n := by
  cases n with
  | scalar w => cases found
  | sequence items => cases found
  | mapping members =>
    unfold build
    have there : (entries (.mapping members)).lookup key = some v := found
    rw [there]
    refine congrArg Node.mapping (((editFirstSame members).mpr fun w here => ?_).trans (editFirstId members))
    cases there.symm.trans here
    exact same

end Levels
end DevkitCommon.Yaml
