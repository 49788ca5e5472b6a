import DevkitCommon.Hertzx.Document

/-! Which annotations reach a request. The tables stand under the paths of the document, and
a request is looked up under its own: the two are the same text for a route without
parameters, and for no other. -/
namespace DevkitCommon.Hertzx

section Paths

def segments (path : String) : List (List Char) := path.toList.splitOn '/'

def isParam (segment : List Char) : Bool := segment.head? == some '{' && segment.getLast? == some '}'

def fits : List (List Char) → List (List Char) → Bool
  | [],[] => true
  | t::ts,s::ss => (if isParam t then s != [] else t == s) && fits ts ss
  | _,_ => false

def Matches (template path : String) : Prop := fits (segments template) (segments path) = true

def prefers : List (List Char) → List (List Char) → Bool
  | t::ts,u::us => !isParam t && isParam u || isParam t == isParam u && prefers ts us
  | _,_ => false

/- What is relied on of the router, which comes from outside: it dispatches to an operation
of the method that the path matches, and of two of them to the one with the fixed segment. -/
structure Routes (doc : Document) (dispatch : String → String → Option Operation) : Prop where
  declared : ∀ method path op, dispatch method path = some op →
    op.entry ∈ doc ∧ op.verb.text = method ∧ Matches op.path path
  fixedFirst : ∀ method path op other, dispatch method path = some op → other.entry ∈ doc → other.verb.text = method →
    Matches other.path path → other = op ∨ prefers (segments op.path) (segments other.path) = true

variable {doc : Document} {dispatch : String → String → Option Operation} {method path : String} {op other : Operation}

theorem fitsSelf {s : List (List Char)} : fits s s = true := by
  induction s with
  | nil => rfl
  | cons x rest ih =>
    simp only [fits,ih,Bool.and_true]
    split
    · rename_i param
      cases x with
      | nil => simp [isParam] at param
      | cons c cs => rfl
    · exact beq_self_eq_true x

theorem fitsLiteral {t s : List (List Char)} (fits' : fits t s = true) : prefers t s = false := by
  induction t generalizing s with
  | nil => rfl
  | cons x rest ih =>
    cases s with
    | nil => rfl
    | cons y ys =>
      simp only [fits,Bool.and_eq_true] at fits'
      have later := ih fits'.2
      simp only [prefers,later,Bool.and_false,Bool.or_false]
      cases param : isParam x with
      | true => rfl
      | false =>
        have same : x = y := by simpa [param] using fits'.1
        rw [← same,param]
        rfl

theorem literalDispatched (routes : Routes doc dispatch) (dispatched : dispatch method path = some op)
    (mem : other.entry ∈ doc) (verb : other.verb.text = method) (same : other.path = path) : other = op := by
  obtain ⟨-,-,matches'⟩ := routes.declared method path op dispatched
  have self : Matches other.path path := by
    rw [same]
    exact fitsSelf
  rcases routes.fixedFirst method path op other dispatched mem verb self with here | preferred
  · exact here
  · rw [same,fitsLiteral matches'] at preferred
    contradiction

theorem plainLiteral (plain : ∀ t ∈ segments op.path, isParam t = false) (matches' : Matches op.path path) :
    op.path = path := by
  have same {t s : List (List Char)} (fixed : ∀ x ∈ t, isParam x = false) (ok : fits t s = true) : t = s := by
    induction t generalizing s with
    | nil => cases s with
      | nil => rfl
      | cons y ys => contradiction
    | cons x rest ih => cases s with
      | nil => contradiction
      | cons y ys =>
        simp only [fits,Bool.and_eq_true,fixed x List.mem_cons_self,Bool.false_eq_true,if_false,beq_iff_eq] at ok
        rw [ok.1,ih (fun z mem => fixed z (List.mem_cons_of_mem _ mem)) ok.2]
  have chars := congrArg ['/'].intercalate (same plain matches')
  unfold segments at chars
  rw [List.intercalate_splitOn,List.intercalate_splitOn] at chars
  exact String.toList_inj.mp chars

end Paths

section Tables
variable {α β : Type} {doc : Document} {dispatch : String → String → Option Operation} {method path key : String}
  {op other : Operation} {entries : List (String × α)} {table : Table α} {v : α} {read : Fields → Option β}

theorem fillMisses (none' : ∀ e ∈ entries, e.1 ≠ key) :
    (entries.foldl (fun table e => table.insert e.1 e.2) table).lookup key = table.lookup key := by
  induction entries generalizing table with
  | nil => rfl
  | cons e rest ih =>
    rw [List.foldl_cons,ih (fun e' mem => none' e' (List.mem_cons_of_mem _ mem))]
    exact AList.lookup_insert_ne (none' e List.mem_cons_self).symm

theorem fillFinds (same : ∀ e ∈ entries, e.1 = key → e.2 = v) (found : ∃ e ∈ entries, e.1 = key) :
    (entries.foldl (fun table e => table.insert e.1 e.2) table).lookup key = some v := by
  induction entries generalizing table with
  | nil =>
    obtain ⟨e,mem,-⟩ := found
    exact absurd mem List.not_mem_nil
  | cons e rest ih =>
    rw [List.foldl_cons]
    by_cases later : ∃ e' ∈ rest, e'.1 = key
    · exact ih (fun e' mem => same e' (List.mem_cons_of_mem _ mem)) later
    · rw [fillMisses (fun e' mem here => later ⟨e',mem,here⟩)]
      obtain ⟨e',mem,here⟩ := found
      rcases List.mem_cons.mp mem with rfl | mem
      · rw [← same e' List.mem_cons_self here,← here]
        exact AList.lookup_insert _
      · exact absurd ⟨e',mem,here⟩ later

theorem verbWord (verb : Verb) : ' ' ∉ verb.text.toList := by cases verb <;> decide

theorem keyParts {v w : Verb} {p q : String} (same : v.text ++ " " ++ p = w.text ++ " " ++ q) :
    v.text = w.text ∧ p = q := by
  have chars := congrArg String.toList same
  simp only [String.toList_append,List.append_assoc] at chars
  obtain ⟨verb,path⟩ := Text.cutUnique (verbWord v) (verbWord w) chars
  exact ⟨String.toList_inj.mp verb,String.toList_inj.mp path⟩

theorem verbKey {k : Key} {verb : Verb} {p q : String} (same : k.method ++ " " ++ p = verb.text ++ " " ++ q) :
    ∃ v, k = .verb v := by
  cases k with
  | verb v => exact ⟨v,rfl⟩
  | other o =>
    have word : ' ' ∉ (Key.other o).method.toList := by cases o <;> decide
    have chars := congrArg String.toList same
    simp only [String.toList_append,List.append_assoc] at chars
    have apart : (Key.other o).method.toList ≠ verb.text.toList := by cases o <;> cases verb <;> decide
    exact absurd (Text.cutUnique word (verbWord verb) chars).1 apart
  | extension name =>
    have first := congrArg (fun s => s.toList.head?) same
    simp only [Key.method,String.toList_append] at first
    revert first
    cases verb <;> simp [Verb.text,Verb.key]

theorem entryOwn {e : PathEntry} {fields : Fields} (routes : Routes doc dispatch) (dispatched : dispatch method path = some op)
    (mem : e ∈ doc) (value : e.value = some fields) (here : e.key.method ++ " " ++ e.path = method ++ " " ++ path) :
    fields = op.fields ∧ op.path = path := by
  obtain ⟨-,verb,-⟩ := routes.declared method path op dispatched
  rw [← verb] at here
  obtain ⟨v,key⟩ := verbKey here
  obtain ⟨epath,ekey,evalue⟩ := e
  cases value
  cases key
  obtain ⟨sameVerb,samePath⟩ := keyParts here
  have own : (⟨epath,v,fields⟩ : Operation) = op :=
    literalDispatched routes dispatched mem (sameVerb.trans verb) samePath
  subst own
  exact ⟨rfl,samePath⟩

theorem ownKey (routes : Routes doc dispatch) (dispatched : dispatch method path = some op) (literal : op.path = path) :
    op.entry.key.method ++ " " ++ op.entry.path = method ++ " " ++ path := by
  have verb := (routes.declared method path op dispatched).2.1
  show op.verb.text ++ " " ++ op.path = _
  rw [verb,literal]

theorem memDecoded {m p : String} {v : β} (mem : (m,p,v) ∈ doc.filterMap (PathEntry.decoded read)) :
    ∃ e ∈ doc, ∃ fields, e.value = some fields ∧ read fields = some v ∧ e.key.method = m ∧ e.path = p := by
  obtain ⟨e,there,made⟩ := List.mem_filterMap.mp mem
  obtain ⟨v',found,same⟩ := Option.map_eq_some_iff.mp made
  obtain ⟨fields,value,reads⟩ := Option.bind_eq_some_iff.mp found
  cases same
  exact ⟨e,there,fields,value,reads,rfl,rfl⟩

theorem ownDecoded {v : β} (mem : op.entry ∈ doc) (reads : read op.fields = some v) :
    (op.entry.key.method,op.entry.path,v) ∈ doc.filterMap (PathEntry.decoded read) := by
  refine List.mem_filterMap.mpr ⟨op.entry,mem,?_⟩
  simp only [PathEntry.decoded,Operation.entry,Option.bind_some,reads,Option.map_some]

theorem permittedPermission {f : Fields} {w : Permitted} (reads : f.permitted = some w) :
    f.permission.value "" = w.permission := by
  simp only [Fields.permitted,bind,Option.bind_eq_some_iff,pure,Option.some.injEq] at reads
  obtain ⟨summary,-,tags,-,permission,read,rfl⟩ := reads
  rw [Field.value,read,Option.getD_some]

theorem readBind {γ : Type} {zero : γ} {f : Field γ} (reads : ∃ v, f.read zero = some v) (tell : γ → Option α) :
    (f.read zero).bind tell = tell (f.value zero) := by
  obtain ⟨v,read⟩ := reads
  rw [Field.value,read]
  rfl

theorem readsOwn (mem : op.entry ∈ doc) (fine : readable read doc = true) : ∃ v, read op.fields = some v :=
  Option.isSome_iff_exists.mp (List.all_eq_true.mp fine op.entry mem)

theorem tableLookup (tell : β → Option α) (routes : Routes doc dispatch) (dispatched : dispatch method path = some op) :
    (tableOf read tell doc).lookup (method ++ " " ++ path) =
      if op.path = path ∧ readable read doc = true then (read op.fields).bind tell else none := by
  unfold tableOf unmarshal
  by_cases fine : readable read doc = true
  · have mem := (routes.declared method path op dispatched).1
    obtain ⟨w,reads⟩ := readsOwn mem fine
    rw [if_pos fine]
    simp only [fine,and_true,reads,Option.bind_some]
    have entry {e : String × α} (made : e ∈ (doc.filterMap (PathEntry.decoded read)).filterMap (entryOf tell))
        (here : e.1 = method ++ " " ++ path) :
        tell w = some e.2 ∧ op.path = path := by
      obtain ⟨⟨m,p,v⟩,decoded,told⟩ := List.mem_filterMap.mp made
      obtain ⟨a,told',same⟩ := Option.map_eq_some_iff.mp told
      cases same
      obtain ⟨e',there,fields,value,reads',rfl,rfl⟩ := memDecoded decoded
      obtain ⟨rfl,literal⟩ := entryOwn routes dispatched there value here
      cases Option.some.inj (reads.symm.trans reads')
      exact ⟨told',literal⟩
    have misses (none' : ¬ (op.path = path ∧ (tell w).isSome = true)) :
        (fill ((doc.filterMap (PathEntry.decoded read)).filterMap (entryOf tell))).lookup (method ++ " " ++ path) = none :=
      fillMisses (fun e made here => none' ⟨(entry made here).2,by rw [(entry made here).1]; rfl⟩)
    by_cases literal : op.path = path
    · rw [if_pos literal]
      cases tells : tell w with
      | none => exact misses (fun both => by rw [tells] at both; exact absurd both.2 Bool.false_ne_true)
      | some a =>
        have own : (op.entry.key.method ++ " " ++ op.entry.path,a) ∈ (doc.filterMap (PathEntry.decoded read)).filterMap
            (entryOf tell) :=
          List.mem_filterMap.mpr ⟨_,ownDecoded mem reads,congrArg (Option.map _) tells⟩
        refine fillFinds (fun e made here => (Option.some.inj (tells.symm.trans (entry made here).1)).symm) ⟨_,own,?_⟩
        exact ownKey routes dispatched literal
    · rw [if_neg literal]
      exact misses (fun both => literal both.1)
  · rw [if_neg fine,if_neg (fun both => fine both.2)]
    rfl

theorem requiredLookup (routes : Routes doc dispatch) (dispatched : dispatch method path = some op) :
    (required doc).lookup (method ++ " " ++ path) =
      if op.path = path ∧ readable Fields.permitted doc = true ∧ op.fields.permission.value "" ≠ "" then
        some (op.fields.permission.value "") else none := by
  unfold required permissionPoints unmarshal
  by_cases fine : readable Fields.permitted doc = true
  · have mem := (routes.declared method path op dispatched).1
    obtain ⟨w,reads⟩ := readsOwn mem fine
    have permission : op.fields.permission.value "" = w.permission := permittedPermission reads
    rw [if_pos fine,permission]
    simp only [fine,true_and]
    have entry {e : String × String} (made : e ∈ (((doc.filterMap (PathEntry.decoded Fields.permitted)).filterMap
        pointOf).insertionSort PermissionPoint.before).map (fun p => (p.method ++ " " ++ p.path,p.name)))
        (here : e.1 = method ++ " " ++ path) : w.permission = e.2 ∧ w.permission ≠ "" ∧ op.path = path := by
      obtain ⟨p,there,rfl⟩ := List.mem_map.mp made
      obtain ⟨⟨m,q,v⟩,decoded,point⟩ := List.mem_filterMap.mp ((List.mem_insertionSort _).mp there)
      simp only [pointOf] at point
      split at point <;> try contradiction
      rename_i full
      cases Option.some.inj point
      obtain ⟨e',there',fields,value,reads',rfl,rfl⟩ := memDecoded decoded
      obtain ⟨rfl,literal⟩ := entryOwn routes dispatched there' value here
      cases Option.some.inj (reads.symm.trans reads')
      exact ⟨rfl,full,literal⟩
    by_cases tells : op.path = path ∧ w.permission ≠ ""
    · rw [if_pos tells]
      obtain ⟨literal,full⟩ := tells
      refine fillFinds (fun e made here => (entry made here).1.symm)
        ⟨(op.entry.key.method ++ " " ++ op.entry.path,w.permission),?_,ownKey routes dispatched literal⟩
      refine List.mem_map.mpr ⟨⟨w.permission,w.summary,w.tags.headD "",op.entry.key.method,op.entry.path⟩,?_,rfl⟩
      refine (List.mem_insertionSort _).mpr (List.mem_filterMap.mpr ⟨_,ownDecoded mem reads,?_⟩)
      simp only [pointOf,if_neg full]
    · rw [if_neg tells]
      exact fillMisses (fun e made here => tells ⟨(entry made here).2.2,(entry made here).2.1⟩)
  · rw [if_neg fine,if_neg (fun both => fine both.2.1)]
    rfl

end Tables
section Enforcement
variable {doc : Document} {dispatch : String → String → Option Operation} {method path : String} {op : Operation}
  {cfg : GuardConfig}

def Operation.declared (op : Operation) : Option String :=
  if op.fields.permission.value "" = "" then none else some (op.fields.permission.value "")

def Operation.audited (op : Operation) : Option AuditOp := op.fields.audited.bind auditOpOf
def Operation.rateInForce (op : Operation) : Option Rate := (rateOf (op.fields.rateLimit.value "")).filter (fun r => !r.off)
def Operation.bodyInForce (op : Operation) (cfg : GuardConfig) : Int :=
  (bodyLimitOf (op.fields.maxBody.value "")).getD cfg.maxBody

structure Enforced (doc : Document) (cfg : GuardConfig) (method path : String) (op : Operation) : Prop where
  permission : ∀ login points, requirePermission doc method path login points = demand op.declared login points
  audit : audit doc method path = op.audited
  rate : guardRate doc method path = op.rateInForce
  body : guardBody doc cfg method path = op.bodyInForce cfg

/- Each annotation: the operation has none, or the request's path is the text of the
template and every value of the document is of the type that the table's struct has for it.
A path of the framework's is not counted. -/
structure InReach (doc : Document) (cfg : GuardConfig) (path : String) (op : Operation) : Prop where
  permission : op.declared = none ∨ op.path = path ∧ readable Fields.permitted doc = true
  audit : op.audited = none ∨ op.path = path ∧ readable Fields.audited doc = true
  rate : op.rateInForce = none ∨
    op.path = path ∧ readable (fun f => f.rateLimit.read "") doc = true ∧ isFrameworkPath path = false
  body : op.bodyInForce cfg = cfg.maxBody ∨ op.path = path ∧ readable (fun f => f.maxBody.read "") doc = true

theorem demandSame {a b : Option String} (same : ∀ login points, demand a login points = demand b login points) :
    a = b := by
  cases a with
  | none =>
    cases b with
    | none => rfl
    | some y => exact absurd (same false none) (by simp [demand])
  | some x =>
    cases b with
    | none => exact absurd (same false none) (by simp [demand])
    | some y =>
      -- who holds the one point alone is let through by both
      have here := same true (some [])
      simpa [demand,allowed,String.append_right_inj] using here

theorem permissionReach (routes : Routes doc dispatch) (dispatched : dispatch method path = some op) :
    (∀ login points, requirePermission doc method path login points = demand op.declared login points) ↔
      op.declared = none ∨ op.path = path ∧ readable Fields.permitted doc = true := by
  simp only [requirePermission,requiredLookup routes dispatched]
  unfold Operation.declared
  by_cases empty : op.fields.permission.value "" = ""
  · rw [if_pos empty,if_neg (fun all => all.2.2 empty)]
    exact iff_of_true (fun _ _ => rfl) (.inl rfl)
  · rw [if_neg empty]
    by_cases reach : op.path = path ∧ readable Fields.permitted doc = true
    · rw [if_pos ⟨reach.1,reach.2,empty⟩]
      exact iff_of_true (fun _ _ => rfl) (.inr reach)
    · rw [if_neg (fun all => reach ⟨all.1,all.2.1⟩)]
      exact iff_of_false (fun same => nomatch demandSame same) (fun either => either.elim (fun no => nomatch no) reach)

theorem auditReach (routes : Routes doc dispatch) (dispatched : dispatch method path = some op) :
    audit doc method path = op.audited ↔
      op.audited = none ∨ op.path = path ∧ readable Fields.audited doc = true := by
  rw [audit,auditedOperations,tableLookup auditOpOf routes dispatched]
  split
  · rename_i reach
    exact iff_of_true rfl (.inr reach)
  · rename_i other
    rw [eq_comm,or_iff_left other]

theorem rateReach (routes : Routes doc dispatch) (dispatched : dispatch method path = some op) :
    guardRate doc method path = op.rateInForce ↔ op.rateInForce = none ∨
      op.path = path ∧ readable (fun f => f.rateLimit.read "") doc = true ∧ isFrameworkPath path = false := by
  rw [guardRate,routeLimits,tableLookup rateOf routes dispatched]
  cases framework : isFrameworkPath path with
  | true =>
    rw [if_pos rfl,eq_comm]
    simp
  | false =>
    rw [if_neg Bool.false_ne_true]
    split
    · rename_i reach
      refine iff_of_true ?_ (.inr ⟨reach.1,reach.2,rfl⟩)
      rw [Operation.rateInForce,readBind (readsOwn (routes.declared method path op dispatched).1 reach.2)]
    · rename_i other
      rw [Option.filter_none,eq_comm,or_iff_left (fun all => other ⟨all.1,all.2.1⟩)]

theorem bodyReach (routes : Routes doc dispatch) (dispatched : dispatch method path = some op) :
    guardBody doc cfg method path = op.bodyInForce cfg ↔ op.bodyInForce cfg = cfg.maxBody ∨
      op.path = path ∧ readable (fun f => f.maxBody.read "") doc = true := by
  rw [guardBody,routeMaxBodies,tableLookup bodyLimitOf routes dispatched]
  split
  · rename_i reach
    refine iff_of_true ?_ (.inr reach)
    rw [Operation.bodyInForce,readBind (readsOwn (routes.declared method path op dispatched).1 reach.2)]
  · rename_i other
    rw [Option.getD_none,eq_comm,or_iff_left other]

def profile : Operation := ⟨"/v1/member/{uid}",.get,
  ⟨.is "会员资料",.is ["会员"],.is "member.view",.is true,.absent,.is "10/m",.absent⟩⟩

def settle : Operation := ⟨"/v1/settle",.post,
  ⟨.is "结算",.is ["资金"],.is "fund.manage",.absent,.absent,.is "3/m",.is "64k"⟩⟩

def twoRoutes : Document := [profile.entry,settle.entry]

def dispatchTwo (method path : String) : Option Operation :=
  [profile,settle].find? (fun op => op.verb.text == method && fits (segments op.path) (segments path))

theorem dispatchesTwo : Routes twoRoutes dispatchTwo where
  declared := fun method path op found => by
    have good := List.find?_some found
    simp only [Bool.and_eq_true,beq_iff_eq] at good
    exact ⟨List.mem_map_of_mem (List.mem_of_find?_eq_some found),good⟩
  fixedFirst := fun method path op other found mem verb _ => by
    -- the two are of different methods
    have mine := List.mem_of_find?_eq_some found
    have good := List.find?_some found
    simp only [Bool.and_eq_true,beq_iff_eq] at good
    have same := verb.trans good.1.symm
    have listed : other ∈ [profile,settle] := by
      have mapped : other.entry ∈ [profile,settle].map Operation.entry := mem
      obtain ⟨q,there,same⟩ := List.mem_map.mp mapped
      obtain ⟨path',verb',fields'⟩ := other
      cases same
      exact there
    simp only [List.mem_cons,List.not_mem_nil,or_false] at listed mine
    have apart : profile.verb.text ≠ settle.verb.text := by decide
    rcases listed with rfl | rfl <;> rcases mine with rfl | rfl
    · exact .inl rfl
    · exact absurd same apart
    · exact absurd same.symm apart
    · exact .inl rfl

/- The summary of a path item, a text where the structs have a mapping: no table is left. -/
example : requirePermission (⟨"/v1/settle",.other .summary,none⟩::twoRoutes) "POST" "/v1/settle" false none = .next := by
  decide

end Enforcement
end DevkitCommon.Hertzx
