import DevkitCommon.Migrate.Plan

/-! What the refusal of a narrowing leaves open. The comparison of a column ends at the first
difference, and the ALTER writes all of it: a type that widens takes its collation along, and
a tag that states no collation gives the column the one of its table. -/
namespace DevkitCommon.Migrate
open Words

structure Kept [Letters] (d : Database) (m : Model) (col : ColumnInfo) (f : Field) : Prop where
  type : narrows col.type f.want = false
  collation : d.collation m f ≠ [] → col.collation ≠ [] → d.collation m f ≠ col.collation → binary (d.collation m f) = true

def Exposed [Letters] (col : ColumnInfo) (f : Field) : Prop := f.want ≠ col.type ∨ f.wantCollation = []

variable {env : Env} {d : Database} {db : SchemaSnapshot} {models : List Model} {ps : List TablePlan}
  {m : Model} {col : ColumnInfo} {f : Field}

theorem narrowsSelf (t : Text) : narrows t t = false := by
  unfold narrows
  dsimp only
  split
  · split
    · rename_i n m left right
      cases left.symm.trans right
      exact decide_eq_false (Int.lt_irrefl n)
    · rfl
  split
  · rw [if_neg (Nat.lt_irrefl _)]
    cases contains (splitType t).rest (chars "unsigned") <;> rfl
  split
  · split
    · rename_i p s q u left right
      cases left.symm.trans right
      exact decide_eq_false (fun either => either.elim (Int.lt_irrefl p) (Int.lt_irrefl s))
    · rfl
  split
  · exact decide_eq_false (Nat.lt_irrefl _)
  split
  · rename_i sizes _ _ texts both
    exact absurd ⟨both.2,both.2⟩ sizes
  · rfl

theorem alteredCompared [Letters] (refuse : refuseNarrowing (models.map (planOne env db)) = none)
    (mem : (m,col,f) ∈ altered env d db models) : refused col f (difference env col f) = false := by
  obtain ⟨p,inside,here⟩ := List.mem_flatMap.mp mem
  obtain ⟨planned,_⟩ := List.mem_filter.mp inside
  obtain ⟨model,_,rfl⟩ := List.mem_map.mp planned
  have none' : (planOne env db model).narrowing = [] := by
    unfold refuseNarrowing at refuse
    dsimp only at refuse
    split at refuse
    · rename_i empty
      exact List.flatMap_eq_nil_iff.mp empty _ planned
    · exact absurd refuse (Option.some_ne_none _)
  unfold planOne at here none'
  cases found : db.lookup (toLower model.table) with
  | none =>
    simp only [found] at here
    exact absurd here List.not_mem_nil
  | some ts =>
    simp only [found,planTable] at here none'
    obtain ⟨⟨col',f'⟩,kept,same⟩ := List.mem_map.mp here
    cases same
    have bare := List.flatMap_eq_nil_iff.mp none' _ (List.mem_filter.mp kept).1
    unfold refusal at bare
    split at bare
    · exact absurd bare (List.cons_ne_nil _ _)
    · rename_i fine
      exact Bool.eq_false_iff.mpr fine

theorem keptType [Letters] (fine : refused col f (difference env col f) = false) : narrows col.type f.want = false := by
  by_cases same : f.want = col.type
  · rw [same]
    exact narrowsSelf _
  · have differs : difference env col f = some .type := if_pos same
    rw [differs] at fine
    exact fine

theorem keptCollation [Letters] (stated : d.Stated) (fine : refused col f (difference env col f) = false)
    (compared : ¬ Exposed col f) (some' : d.collation m f ≠ []) (had : col.collation ≠ [])
    (other : d.collation m f ≠ col.collation) : binary (d.collation m f) = true := by
  have same : f.want = col.type := not_not.mp (fun differs => compared (.inl differs))
  have states : f.wantCollation ≠ [] := fun none' => compared (.inr none')
  have gets := (stated m f states).resolve_right some'
  rw [gets] at other ⊢
  have differs : difference env col f = some .collation := by
    unfold difference
    rw [if_neg (not_not.mpr same),if_pos ⟨states,had,other⟩]
  rw [differs] at fine
  simpa [refused] using fine

theorem refusalKeeps [Letters] (stated : d.Stated) (ok : migratePlan env db models = .ok ps) (refuse : refuseNarrowing ps = none) :
    (∀ m col f, (m,col,f) ∈ altered env d db models → Kept d m col f) ↔
      ∀ m col f, (m,col,f) ∈ altered env d db models → Exposed col f →
        d.collation m f ≠ [] → col.collation ≠ [] → d.collation m f ≠ col.collation → binary (d.collation m f) = true := by
  have plans : ps = models.map (planOne env db) := by
    unfold migratePlan at ok
    split at ok
    · cases ok
    · cases ok
      rfl
  rw [plans] at refuse
  constructor
  · intro keeps m col f mem _
    exact (keeps m col f mem).collation
  · intro keeps m col f mem
    have fine := alteredCompared refuse mem
    refine ⟨keptType fine,?_⟩
    by_cases exposed : Exposed col f
    · exact keeps m col f mem exposed
    · exact keptCollation stated fine exposed

def sameNumbers : Env := ⟨fun a b => a == b⟩
def server : Database := ⟨fun _ f col => f.want != col.type,fun _ f => f.wantCollation⟩

theorem serverStated : server.Stated := fun _ _ _ => .inl rfl

def code (typeTag : String) : Field := ⟨chars "Code",chars "code",chars typeTag,true,false,false,none⟩
def coupon (typeTag : String) : Model := ⟨chars "Coupon",chars "coupon",[code typeTag],[]⟩
def coupons : SchemaSnapshot := [(chars "coupon",⟨[(chars "code",⟨chars "varchar(64)",false,none,chars "utf8mb4_0900_bin"⟩)],[]⟩)]

theorem widenedLoosened : ¬ ∀ (env : Env) (d : Database) db models ps, d.Stated → migratePlan env db models = .ok ps →
    refuseNarrowing ps = none → ∀ m col f, (m,col,f) ∈ altered env d db models → Kept d m col f := by
  intro keeps
  have planned : migratePlan sameNumbers coupons [coupon "varchar(128) COLLATE utf8mb4_0900_ai_ci"] =
      .ok [planOne sameNumbers coupons (coupon "varchar(128) COLLATE utf8mb4_0900_ai_ci")] := by decide
  have passes : refuseNarrowing [planOne sameNumbers coupons (coupon "varchar(128) COLLATE utf8mb4_0900_ai_ci")] = none := by
    decide
  have mem : (coupon "varchar(128) COLLATE utf8mb4_0900_ai_ci",⟨chars "varchar(64)",false,none,chars "utf8mb4_0900_bin"⟩,
      code "varchar(128) COLLATE utf8mb4_0900_ai_ci") ∈
        altered sameNumbers server coupons [coupon "varchar(128) COLLATE utf8mb4_0900_ai_ci"] := by decide
  have kept := keeps _ _ _ _ _ serverStated planned passes _ _ _ mem
  exact absurd (kept.collation (by decide) (by decide) (by decide)) (by decide)

def widened : Model := coupon "varchar(128) COLLATE utf8mb4_bin"

theorem widenedKept : altered sameNumbers server coupons [widened] =
      [(widened,⟨chars "varchar(64)",false,none,chars "utf8mb4_0900_bin"⟩,code "varchar(128) COLLATE utf8mb4_bin")] ∧
    ∀ m col f, (m,col,f) ∈ altered sameNumbers server coupons [widened] → Kept server m col f := by
  have planned : migratePlan sameNumbers coupons [widened] = .ok [planOne sameNumbers coupons widened] := by decide
  have passes : refuseNarrowing [planOne sameNumbers coupons widened] = none := by decide
  have one : altered sameNumbers server coupons [widened] =
      [(widened,⟨chars "varchar(64)",false,none,chars "utf8mb4_0900_bin"⟩,code "varchar(128) COLLATE utf8mb4_bin")] := by
    decide
  refine ⟨one,(refusalKeeps serverStated planned passes).mpr (fun m col f mem _ _ _ _ => ?_)⟩
  rw [one] at mem
  cases List.mem_singleton.mp mem
  decide

end DevkitCommon.Migrate
