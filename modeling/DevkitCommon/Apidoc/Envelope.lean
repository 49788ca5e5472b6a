import DevkitCommon.Apidoc.Annotated

/-! The gateway's envelope around the 200 response of every operation. A document is what is
written of it: what is hung under a scalar is not. -/
namespace DevkitCommon.Apidoc.Wrapping
open DevkitCommon.Yaml DevkitCommon.Pairs

section Source

def prop (typ format desc : String) : Node :=
  .mapping ([("type",.scalar typ)] ++ (if format ≠ "" then [("format",.scalar format)] else []) ++ [("description",.scalar desc)])

def refersEmpty (data : Node) : Bool := match mapGet data "$ref" with
  | some ref => containsText ref.value "Empty"
  | none => false

def codeProp : Node := prop "integer" "int32" "0 成功；其他见错误码表（idl/errors/*.thrift，也在本文档的 x-error-codes）"
def msgProp : Node := prop "string" "" "给人看的说明，成功时为空"

def envelopeSchema (data : Option Node) : Node :=
  let props := [("code",codeProp),("msg",msgProp)]
  let props := match data with
    | some data => if refersEmpty data then props else props ++ [("data",data)]
    | none => props
  .mapping [("type",.scalar "object"),("required",.sequence [.scalar "code",.scalar "msg"]),("properties",.mapping props)]

def wrapSchema (js : Node) : Node := match mapGet js "schema" with
  | some schema =>
    if (mapGet schema "code").isSome then js
    else each (fun k v => if k = "schema" then envelopeSchema (some schema) else v) js
  | none => append "schema" (envelopeSchema none) js

def success : String := "成功。业务结果看 code：0 成功，其余见错误码表"

def wrapResponse (ok : Node) : Node :=
  buildAll wrapSchema ["content","application/json"] (mapSet ok "description" success)

def wrapOperation : Node → Node := buildAll wrapResponse ["responses","200"]

def Envelope (top : Node) : Node := eachOperation wrapOperation top

end Source
section Purpose

def schemaOf (op : Node) : Option Node :=
  (fieldAt ["responses","200"] op).bind (fun ok =>
    (fieldAt ["content","application/json"] ok).bind (fun js => field js "schema"))

def envelope (code msg : Node) (data : Option Node) : Node :=
  .mapping [("type",.scalar "object"),("required",.sequence [.scalar "code",.scalar "msg"]),
    ("properties",.mapping (("code",code)::("msg",msg)::data.toList.map (fun d => ("data",d))))]

def Wrapped (data now : Option Node) : Prop :=
  ∃ code msg, field code "type" = some (.scalar "integer") ∧ field msg "type" = some (.scalar "string") ∧
    now = some (envelope code msg data)

/- empty tells which references are to common.Empty: their names are not given here. -/
def returnsEmpty (empty : String → Bool) (schema : Node) : Bool := match field schema "$ref" with
  | some ref => empty ref.value
  | none => false

def dataOf (empty : String → Bool) (schema : Option Node) : Option Node := schema.filter (fun s => !returnsEmpty empty s)

def Lossless (empty : String → Bool) (top : Node) : Prop :=
  ∀ (i : Nat) (path method : String) (op : Node), (operations top)[i]? = some (path,method,op) → isMapping op = true →
    ∃ op', (operations (Envelope top))[i]? = some (path,method,op') ∧ Wrapped (dataOf empty (schemaOf op)) (schemaOf op')

def Idempotent (top : Node) : Prop := Envelope (Envelope top) = Envelope top

def Levels (op : Node) : Prop :=
  Open ["responses","200"] op ∧ Open ["content","application/json"] (levelAt ["responses","200"] op)

def Fits (empty : String → Bool) (op : Node) : Prop :=
  Levels op ∧ ∀ schema, schemaOf op = some schema → mapGet schema "code" = none ∧ refersEmpty schema = returnsEmpty empty schema

def Skipped (op : Node) : Prop := ∃ schema, schemaOf op = some schema ∧ (mapGet schema "code").isSome = true

end Purpose
section Claim
variable {empty : String → Bool} {top op js : Node} {data : Option Node} {ms : List (String × Node)}

theorem keepsSchema (js : Node) : isMapping (wrapSchema js) = isMapping js := by
  unfold wrapSchema
  cases mapGet js "schema" with
  | none => cases js <;> rfl
  | some schema =>
    dsimp only
    split
    · rfl
    · cases js <;> rfl

theorem keepsResponse (ok : Node) : isMapping (wrapResponse ok) = isMapping ok :=
  (allMapping keepsSchema).trans buildMapping

def content (op : Node) : Node := levelAt ["content","application/json"] (levelAt ["responses","200"] op)

theorem schemaHad (levels : Levels op) : schemaOf op = field (content op) "schema" :=
  (readBelow rfl levels.1).trans (readBelow rfl levels.2)

theorem responseSchema {ok : Node} (open' : Open ["content","application/json"] ok) :
    fieldAt ["content","application/json"] (wrapResponse ok) =
      some (wrapSchema (levelAt ["content","application/json"] ok)) := by
  have other : "content" ≠ "description" := by decide
  have described : Open ["content","application/json"] (build "description" (fun _ => .scalar success) ok) :=
    (openOther other).mpr open'
  have same := fieldAtAll (f := wrapSchema) described
  rw [levelOther other] at same
  exact same

theorem schemaWrapped (levels : Levels op) : schemaOf (wrapOperation op) = field (wrapSchema (content op)) "schema" := by
  rw [schemaOf,wrapOperation,fieldAtAll levels.1]
  change (fieldAt ["content","application/json"] (wrapResponse (levelAt ["responses","200"] op))).bind _ = _
  rw [responseSchema levels.2]
  rfl

theorem schemaClosed (closed : ¬ Levels op) : schemaOf (wrapOperation op) = none := by
  have first : ∀ js, isMapping js = false → field js "schema" = none := fun js not => noField not _
  have second : ∀ ok, isMapping ok = false → fieldAt ["content","application/json"] ok = none := by
    intro ok not
    rw [fieldAt,noField not]
    rfl
  by_cases open' : Open ["responses","200"] op
  · rw [schemaOf,wrapOperation,fieldAtAll open']
    have below : ¬ Open ["content","application/json"] (build "description" (fun _ => .scalar success)
        (levelAt ["responses","200"] op)) := by
      rw [openOther (by decide)]
      exact fun more => closed ⟨open',more⟩
    change (fieldAt ["content","application/json"] (wrapResponse (levelAt ["responses","200"] op))).bind _ = none
    cases found : fieldAt ["content","application/json"] (wrapResponse (levelAt ["responses","200"] op)) with
    | none => rfl
    | some js => exact first js (closedAll keepsSchema below js found)
  · rw [schemaOf]
    cases found : fieldAt ["responses","200"] (wrapOperation op) with
    | none => rfl
    | some ok =>
      have none := second ok (closedAll keepsResponse open' ok found)
      exact congrArg (fun o : Option Node => o.bind fun js => field js "schema") none

theorem schemaMade (ms : List (String × Node)) : field (wrapSchema (.mapping ms)) "schema" = match ms.lookup "schema" with
    | none => some (envelopeSchema none)
    | some schema => if (mapGet schema "code").isSome then some schema else some (envelopeSchema (some schema)) := by
  unfold wrapSchema
  rw [mapGet,entries]
  cases found : ms.lookup "schema" with
  | none =>
    change (ms ++ [("schema",envelopeSchema none)]).lookup "schema" = _
    rw [lookupAfter found]
    rfl
  | some schema =>
    dsimp only
    split
    · exact found
    · change (ms.map fun m => (m.1,if m.1 = "schema" then envelopeSchema (some schema) else m.2)).lookup "schema" = _
      rw [lookupMap ms (fun k v => if k = "schema" then envelopeSchema (some schema) else v),found]
      rfl

theorem envelopeOf (data : Option Node) : ∃ code msg, field code "type" = some (.scalar "integer") ∧
    field msg "type" = some (.scalar "string") ∧
    envelopeSchema data = envelope code msg (data.filter fun d => !refersEmpty d) := by
  refine ⟨codeProp,msgProp,rfl,rfl,?_⟩
  cases data with
  | none => rfl
  | some data =>
    unfold envelopeSchema
    cases empty : refersEmpty data with
    | true => simp only [if_true,Option.filter,empty,Bool.not_true]; rfl
    | false => simp only [Bool.false_eq_true,if_false,Option.filter,empty,Bool.not_false]; rfl

theorem envelopeInj {code msg code' msg' : Node} {data data' : Option Node}
    (same : envelope code msg data = envelope code' msg' data') : data = data' := by
  simp only [envelope,Node.mapping.injEq,List.cons.injEq,Prod.mk.injEq,true_and,and_true] at same
  have rest := same.2.2
  cases data <;> cases data' <;> simp_all

theorem wrappedSchema : Wrapped (dataOf empty data) (some (envelopeSchema data)) ↔
    ∀ d, data = some d → refersEmpty d = returnsEmpty empty d := by
  obtain ⟨code,msg,typed,typed',form⟩ := envelopeOf data
  rw [form]
  have equal : dataOf empty data = data.filter (fun d => !refersEmpty d) ↔
      ∀ d, data = some d → refersEmpty d = returnsEmpty empty d := by
    rw [dataOf]
    cases data with
    | none => exact ⟨fun _ d none => absurd none.symm (Option.some_ne_none d),fun _ => rfl⟩
    | some d =>
      simp only [Option.some.injEq,forall_eq']
      cases code : refersEmpty d <;> cases due : returnsEmpty empty d <;> simp [Option.filter,code,due]
  rw [← equal]
  constructor
  · rintro ⟨code',msg',_,_,same⟩
    exact (envelopeInj (Option.some.inj same)).symm
  · intro same
    rw [same]
    exact ⟨code,msg,typed,typed',rfl⟩

theorem envelopeMembers {code msg : Node} : mapGet (envelope code msg data) "code" = none ∧
    mapGet (envelope code msg data) "$ref" = none := ⟨rfl,rfl⟩

theorem operationFits : Wrapped (dataOf empty (schemaOf op)) (schemaOf (wrapOperation op)) ↔ Fits empty op := by
  by_cases levels : Levels op
  · obtain ⟨ms,is⟩ := mappingForm (levelMapping levels.2)
    have had : schemaOf op = ms.lookup "schema" := by
      rw [schemaHad levels,content,is]
      rfl
    rw [schemaWrapped levels,content,is,schemaMade,Fits,had]
    cases ms.lookup "schema" with
    | none =>
      refine iff_of_true (wrappedSchema.mpr fun d none => absurd none.symm (Option.some_ne_none d)) ⟨levels,fun d none => ?_⟩
      exact absurd none.symm (Option.some_ne_none d)
    | some schema =>
      dsimp only
      split
      · rename_i code
        refine iff_of_false ?_ fun fits => ?_
        · rintro ⟨c,m,_,_,same⟩
          rw [Option.some.inj same,envelopeMembers.1] at code
          cases code
        · rw [(fits.2 schema rfl).1] at code
          cases code
      · rename_i code
        rw [wrappedSchema]
        have none : mapGet schema "code" = none := Option.not_isSome_iff_eq_none.mp code
        constructor
        · intro same
          refine ⟨levels,fun d is => ?_⟩
          cases is
          exact ⟨none,same _ rfl⟩
        · exact fun fits d is => (fits.2 d is).2
  · rw [schemaClosed levels]
    refine iff_of_false ?_ fun fits => levels fits.1
    rintro ⟨_,_,_,_,none⟩
    cases none

theorem envelopeSize (plain : refersEmpty op = false) : sizeOf op < sizeOf (envelopeSchema (some op)) := by
  simp only [envelopeSchema,plain,Bool.false_eq_true,if_false,List.cons_append,List.nil_append,Node.mapping.sizeOf_spec,
    List.cons.sizeOf_spec,Prod.mk.sizeOf_spec,List.nil.sizeOf_spec]
  omega

theorem envelopeAgain (data : Option Node) : mapGet (envelopeSchema data) "code" = none ∧
    envelopeSchema (some (envelopeSchema data)) ≠ envelopeSchema data := by
  obtain ⟨code,msg,_,_,form⟩ := envelopeOf data
  have plain : refersEmpty (envelopeSchema data) = false := by
    rw [refersEmpty,form,envelopeMembers.2]
  refine ⟨form ▸ envelopeMembers.1,fun same => ?_⟩
  have bigger := envelopeSize plain
  rw [same] at bigger
  exact Nat.lt_irrefl _ bigger

theorem schemaTwice (ms : List (String × Node)) : wrapSchema (wrapSchema (.mapping ms)) = wrapSchema (.mapping ms) ↔
    ∃ schema, ms.lookup "schema" = some schema ∧ (mapGet schema "code").isSome = true := by
  have made := schemaMade ms
  have fresh {data : Option Node} (now : field (wrapSchema (.mapping ms)) "schema" = some (envelopeSchema data)) :
      wrapSchema (wrapSchema (.mapping ms)) ≠ wrapSchema (.mapping ms) := by
    intro same
    obtain ⟨after,is⟩ := mappingForm ((keepsSchema (.mapping ms)).trans rfl)
    rw [is] at same now
    have again := schemaMade after
    have found : after.lookup "schema" = some (envelopeSchema data) := now
    rw [same,now,found] at again
    dsimp only at again
    rw [(envelopeAgain data).1] at again
    exact (envelopeAgain data).2 (Option.some.inj again).symm
  cases found : ms.lookup "schema" with
  | none =>
    rw [found] at made
    refine iff_of_false (fresh made) ?_
    rintro ⟨schema,none,_⟩
    cases none
  | some schema =>
    rw [found] at made
    dsimp only at made
    by_cases code : (mapGet schema "code").isSome = true
    · have kept : wrapSchema (.mapping ms) = .mapping ms := by
        unfold wrapSchema
        rw [mapGet,entries,found]
        exact if_pos code
      rw [kept,kept]
      exact iff_of_true rfl ⟨schema,rfl,code⟩
    · rw [if_neg code] at made
      refine iff_of_false (fresh made) ?_
      rintro ⟨other,same,there⟩
      cases same
      exact code there

theorem responseTwice {ok : Node} (open' : Open ["content","application/json"] ok) :
    wrapResponse (wrapResponse ok) = wrapResponse ok ↔
      wrapSchema (wrapSchema (levelAt ["content","application/json"] ok)) =
        wrapSchema (levelAt ["content","application/json"] ok) := by
  have other : "content" ≠ "description" := by decide
  let first := build "description" (fun _ => .scalar success) ok
  have described : Open ["content","application/json"] first := (openOther other).mpr open'
  have twice := allTwice (f := wrapSchema) described
  rw [levelOther other] at twice
  -- the description that has been set is there when it is set again
  have set : field (buildAll wrapSchema ["content","application/json"] first) "description" = some (.scalar success) := by
    obtain ⟨ms,rfl⟩ := mappingForm open'.1
    exact (fieldBuildOther (Ne.symm other)).trans fieldBuild
  have same := buildHas (f := fun _ => .scalar success) set rfl
  have again : wrapResponse (wrapResponse ok) =
      buildAll wrapSchema ["content","application/json"] (buildAll wrapSchema ["content","application/json"] first) :=
    congrArg (buildAll wrapSchema ["content","application/json"]) same
  rw [again]
  exact twice

theorem operationTwice (levels : Levels op) : wrapOperation (wrapOperation op) = wrapOperation op ↔ Skipped op := by
  refine (allTwice levels.1).trans ((responseTwice levels.2).trans ?_)
  obtain ⟨ms,is⟩ := mappingForm (levelMapping levels.2)
  rw [is,schemaTwice,Skipped,schemaHad levels,content,is]
  rfl

theorem onMappingIs (is : isMapping op = true) : onMapping wrapOperation op = wrapOperation op := by
  obtain ⟨ms,rfl⟩ := mappingForm is
  rfl

theorem losslessAll : Lossless empty top ↔ ∀ o ∈ operations top, isMapping o.2.2 = true → Fits empty o.2.2 := by
  have there (i : Nat) (o : String × String × Node) (here : (operations top)[i]? = some o) :
      (operations (Envelope top))[i]? = some (o.1,o.2.1,onMapping wrapOperation o.2.2) := by
    rw [Envelope,operationsEach,List.getElem?_map,here]
    rfl
  constructor
  · intro lossless o mem is
    obtain ⟨i,here⟩ := List.mem_iff_getElem?.mp mem
    obtain ⟨op',now,wrapped⟩ := lossless i o.1 o.2.1 o.2.2 here is
    cases (there i o here).symm.trans now
    rw [onMappingIs is] at wrapped
    exact operationFits.mp wrapped
  · intro fits i path method op here is
    refine ⟨_,there i _ here,?_⟩
    rw [onMappingIs is]
    exact operationFits.mpr (fits _ (List.mem_of_getElem? here) is)

theorem idempotentAll : Idempotent top ↔
    ∀ o ∈ operations top, isMapping o.2.2 = true → wrapOperation (wrapOperation o.2.2) = wrapOperation o.2.2 := by
  have inner (op : Node) : onMapping wrapOperation (onMapping wrapOperation op) = onMapping wrapOperation op ↔
      (isMapping op = true → wrapOperation (wrapOperation op) = wrapOperation op) := by
    cases op with
    | scalar v => exact iff_of_true rfl (fun is => by cases is)
    | sequence items => exact iff_of_true rfl (fun is => by cases is)
    | mapping ms =>
      have is : isMapping (.mapping ms) = true := rfl
      have after : isMapping (wrapOperation (.mapping ms)) = true := (allMapping keepsResponse).trans is
      rw [onMappingIs is,onMappingIs after]
      exact ⟨fun same _ => same,fun same => same is⟩
  rw [Idempotent,Envelope,Envelope,eachOperation,editTwice,editSame]
  simp only [eachTwice,eachSame,inner]
  rw [operations,mapGet]
  cases (entries top).lookup "paths" with
  | none => exact iff_of_true (fun v none => by cases none) (fun o mem => by cases mem)
  | some paths =>
    simp only [Option.some.injEq,forall_eq',List.mem_flatMap,List.mem_map]
    constructor
    · rintro all o ⟨path,mem,op,inside,rfl⟩
      exact all path mem op inside
    · exact fun all path mem op inside => all _ ⟨path,mem,op,inside,rfl⟩

theorem envelopeLaws (empty : String → Bool) (top : Node) :
    (Lossless empty top ↔ ∀ o ∈ operations top, isMapping o.2.2 = true → Fits empty o.2.2) ∧
    ((∀ o ∈ operations top, isMapping o.2.2 = true → Levels o.2.2) →
      (Idempotent top ↔ ∀ o ∈ operations top, isMapping o.2.2 = true → Skipped o.2.2)) ∧
    (Lossless empty top ∧ Idempotent top ↔ ∀ o ∈ operations top, isMapping o.2.2 = false) := by
  refine ⟨losslessAll,fun levels => ?_,?_⟩
  · rw [idempotentAll]
    exact forall₂_congr fun o mem => forall_congr' fun is => operationTwice (levels o mem is)
  · rw [losslessAll,idempotentAll]
    constructor
    · rintro ⟨fits,same⟩ o mem
      refine Bool.eq_false_iff.mpr fun is => ?_
      obtain ⟨levels,wraps⟩ := fits o mem is
      obtain ⟨schema,had,code⟩ := (operationTwice levels).mp (same o mem is)
      rw [(wraps schema had).1] at code
      cases code
    · intro none
      exact ⟨fun o mem is => absurd is (Bool.eq_false_iff.mp (none o mem)),
        fun o mem is => absurd is (Bool.eq_false_iff.mp (none o mem))⟩

def returning (ref : String) : Node :=
  .mapping [("paths",.mapping [("/v1/cart",.mapping [("post",.mapping [("responses",.mapping [("200",.mapping [
    ("content",.mapping [("application/json",.mapping [("schema",.mapping [("$ref",.scalar ref)])])])])])])])])]

def dataRef (op : Node) : Option String :=
  ((schemaOf op).bind (fieldAt ["properties","data","$ref"])).map Node.value

theorem envelopesFail : ¬ (∀ top, Lossless (fun ref => ref == "#/components/schemas/Empty") top) ∧ ¬ ∀ top, Idempotent top := by
  constructor
  · intro lossless
    obtain ⟨op',now,code,msg,_,_,same⟩ := lossless (returning "#/components/schemas/EmptyCartBody") 0 "/v1/cart" "post" _ rfl rfl
    have there : dataRef op' = none := by
      cases Option.some.inj now
      decide
    have due : dataRef op' = some "#/components/schemas/EmptyCartBody" := by
      rw [dataRef,same]
      rfl
    exact Option.some_ne_none _ (due.symm.trans there)
  · intro idempotent
    have same := congrArg (fun top => (operations top).map (fun o => dataRef o.2.2))
      (idempotent (returning "#/components/schemas/ProfileBody"))
    revert same
    decide

end Claim
end DevkitCommon.Apidoc.Wrapping
