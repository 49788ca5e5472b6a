import DevkitCommon.Lib.Spacing
import DevkitCommon.Migrate.Plan

/-! Whether a migration comes to an end. MySQL reports a column under its own name of the type,
in its own spelling; a plan made against the report is empty when each tag spells the type,
the collation and the default as they are reported. -/
namespace DevkitCommon.Migrate
open Words

/- The characters of a type that are no blanks, in lower case, each with whether a blank before
it counts: none does beside a comma or before a parenthesis that opens. -/
def glyphs [Letters] (t : Text) : List Mark :=
  closeBefore '(' (closeBefore ',' (closeAfter ',' false (marks false false (toLower t))))

def squeeze [Letters] (t : Text) : Text := write (glyphs t)

def Widthless (p : Parts) : Prop := 0 < intRank p.base ∧ ¬ (p.base = chars "tinyint" ∧ p.params = [1])
instance (p) : Decidable (Widthless p) := by unfold Widthless; infer_instance

def Boolean [Letters] (t : Text) : Prop := squeeze t = chars "bool" ∨ squeeze t = chars "boolean"
instance [Letters] (t) : Decidable (Boolean t) := by unfold Boolean; infer_instance

def integerText (p : Parts) : Text := trimSpace (p.base ++ chars " " ++ p.rest)

section Normal
variable [Letters] {t r : Text}

theorem glyphsPlain (t : Text) : Plain (glyphs t) :=
  closeBeforePlain (closeBeforePlain (closeAfterPlain false (marksPlain false false (toLower t))))

theorem glyphsTight (t : Text) : Tight (glyphs t) :=
  closeBeforeTight (closeBeforeTight (closeAfterTight (marksTight false (toLower t))))

theorem squeezeIff : squeeze t = squeeze r ↔ glyphs t = glyphs r :=
  ⟨writeInjective (glyphsPlain t) (glyphsPlain r),congrArg write⟩

theorem squeezed (t : Text) : respace (join (fields (toLower (trimSpace t)))) = squeeze t := by
  have low : toLower (trimSpace t) = trimSpace (toLower t) := (trimMap spaceLower t).symm
  have plain := marksPlain false false (toLower t)
  unfold respace
  rw [joinFields,low,marksTrim,show chars ", " = [',',' '] from rfl,show chars " ," = [' ',','] from rfl,
    show chars "," = [','] from rfl,show chars " (" = [' ','('] from rfl,show chars "(" = ['('] from rfl,
    replaceAfter (by decide) plain,replaceBefore (closeAfterPlain false plain),
    replaceBefore (closeBeforePlain (closeAfterPlain false plain))]
  rfl

theorem normalizeEq (t : Text) : normalizeType t =
    if Boolean t then chars "tinyint(1)"
    else if Widthless (splitType (squeeze t)) then integerText (splitType (squeeze t))
    else squeeze t := by
  unfold normalizeType
  simp only [squeezed]
  rfl

theorem squeezeFields (t : Text) : join (fields (squeeze t)) = squeeze t := by
  rw [joinFields,squeeze,marksTightWrite (glyphsPlain t) (glyphsTight t)]

end Normal

structure Reported [Letters] (r : Text) : Prop where
  name : ¬ chars "integer" <+: squeeze r ∧ ¬ chars "numeric" <+: squeeze r
  flag : ¬ Boolean r
  width : 0 < intRank (splitType (squeeze r)).base → '(' ∈ squeeze r → squeeze r = chars "tinyint(1)"

/- What information_schema reports of a column made from a field's tag: its type, its default if
it has one, and its collation, empty for a column of no characters. -/
structure MySQL [Letters] where
  type : Field → Text
  default : Field → Option Text
  collation : Field → Text
  reported : ∀ f, Reported (type f)

section Reports
variable [Letters] {t r : Text}

theorem normalReported (rep : Reported r) : normalizeType r = squeeze r := by
  have trimmed : trimSpace (squeeze r) = squeeze r := writeTrim (glyphsPlain r) (glyphsTight r)
  rw [normalizeEq,if_neg rep.flag]
  split
  · rename_i integer
    by_cases parens : '(' ∈ squeeze r
    · rw [rep.width integer.1 parens] at integer
      exact absurd integer (by decide)
    · have none' : (squeeze r).idxOf? '(' = none := List.idxOf?_eq_none_iff.mpr parens
      have joined := squeezeFields r
      unfold integerText splitType
      rw [none']
      cases words : fields (squeeze r) with
      | nil =>
        rw [words] at joined
        rw [← joined]
        rfl
      | cons f rest =>
        rw [words] at joined
        cases rest with
        | nil =>
          have one : f = squeeze r := by simpa [join] using joined
          have last : trimSpace (squeeze r ++ [' ']) = trimSpace (squeeze r) := trimBlank rfl
          rw [one]
          exact (congrArg trimSpace (List.append_nil (squeeze r ++ [' ']))).trans (last.trans trimmed)
        | cons g rest =>
          have whole : f ++ chars " " ++ join (g::rest) = squeeze r := by
            rw [← joined]
            simp [join,chars]
          exact (congrArg trimSpace whole).trans trimmed
  · rfl

/- The type that a tag spells is the one reported: a boolean's, an integer's name with the same
words after it, or else the same characters with the blanks that count. Irreducible, or every
use of such a fact begins to evaluate it. -/
@[irreducible] def Spells (t r : Text) : Prop :=
  if Boolean t then squeeze r = chars "tinyint(1)"
  else if Widthless (splitType (squeeze t)) then squeeze r = integerText (splitType (squeeze t))
  else glyphs t = glyphs r
instance (t r) : Decidable (Spells t r) := by unfold Spells; infer_instance

theorem spellsIff (rep : Reported r) : normalizeType t = normalizeType r ↔ Spells t r := by
  rw [normalReported rep,normalizeEq]
  unfold Spells
  split
  · exact eq_comm
  split
  · exact eq_comm
  · exact squeezeIff

def Aliased (t : Text) : Prop :=
  (splitType (squeeze t)).base = chars "integer" ∨ (splitType (squeeze t)).base = chars "numeric"
instance (t) : Decidable (Aliased t) := by unfold Aliased; infer_instance

theorem basePrefix (t : Text) : (splitType (squeeze t)).base <+: squeeze t := by
  have joined := squeezeFields t
  cases start : (squeeze t).idxOf? '(' with
  | none =>
    unfold splitType
    rw [start]
    cases words : fields (squeeze t) with
    | nil => exact List.nil_prefix
    | cons f rest =>
      rw [words,joinCons] at joined
      exact ⟨_,joined⟩
  | some i =>
    have base : (splitType (squeeze t)).base = trimSpace ((squeeze t).take i) := by
      unfold splitType
      rw [start]
      dsimp only
      split
      · rfl
      split
      · rfl
      · rfl
    have left : ((squeeze t).take i).dropWhile space = (squeeze t).take i := by
      cases front : (squeeze t).take i with
      | nil => rfl
      | cons c rest =>
        have head : (squeeze t).head? = some c := by
          obtain ⟨more,whole⟩ := List.take_prefix i (squeeze t)
          rw [← whole,front]
          rfl
        exact List.dropWhile_cons_of_neg (Bool.eq_false_iff.mp (writeFirst (glyphsPlain t) (glyphsTight t) c head))
    have cut : trimSpace ((squeeze t).take i) = ((squeeze t).take i).rdropWhile space :=
      congrArg (List.rdropWhile space) left
    rw [base,cut]
    exact (List.rdropWhile_prefix space _).trans (List.take_prefix i _)

theorem aliasNever (rep : Reported r) (other : Aliased t) : ¬ Spells t r := by
  have front := basePrefix t
  unfold Aliased at other
  unfold Spells
  split
  · rename_i flag
    rcases flag with flag | flag <;> rw [flag] at other <;> exact absurd other (by decide)
  rcases other with integer | numeric
  · have width : Widthless (splitType (squeeze t)) := by
      unfold Widthless
      rw [integer]
      exact ⟨by decide,fun both => absurd both.1 (by decide)⟩
    rw [if_pos width]
    intro same
    refine rep.name.1 (same ▸ ?_)
    unfold integerText
    rw [integer,List.append_assoc]
    exact trimPrefix _ (by decide) (fun c first => by cases Option.some.inj first; rfl)
      (fun c last => by cases Option.some.inj last; rfl)
  · have width : ¬ Widthless (splitType (squeeze t)) := by
      unfold Widthless
      rw [numeric]
      exact fun both => absurd both.1 (by decide)
    rw [if_neg width]
    intro same
    rw [numeric,squeezeIff.mpr same] at front
    exact rep.name.2 front

end Reports

theorem differenceNone [Letters] {env : Env} {col : ColumnInfo} {f : Field} : difference env col f = none ↔
    f.want = col.type ∧ (f.wantCollation = [] ∨ col.collation = [] ∨ f.wantCollation = col.collation) ∧
    f.wantNullable = col.nullable ∧
    ∀ want have', f.wantDefault = some want → col.default = some have' → sameDefault env want have' = true := by
  have collations : ¬ (f.wantCollation ≠ [] ∧ col.collation ≠ [] ∧ f.wantCollation ≠ col.collation) ↔
      f.wantCollation = [] ∨ col.collation = [] ∨ f.wantCollation = col.collation := by
    simp only [not_and_or,not_not,ne_eq]
  rw [← collations]
  unfold difference
  by_cases type : f.want = col.type
  · rw [if_neg (not_not.mpr type)]
    by_cases collation : f.wantCollation ≠ [] ∧ col.collation ≠ [] ∧ f.wantCollation ≠ col.collation
    · rw [if_pos collation]
      exact iff_of_false (fun none' => Option.some_ne_none _ none') (fun all => all.2.1 collation)
    · rw [if_neg collation]
      by_cases nullable : f.wantNullable = col.nullable
      · rw [if_neg (not_not.mpr nullable)]
        cases f.wantDefault <;> cases col.default <;> simp [type,collation,nullable]
      · rw [if_pos nullable]
        exact iff_of_false (fun none' => Option.some_ne_none _ none') (fun all => nullable all.2.2.1)
  · rw [if_pos type]
    exact iff_of_false (fun none' => Option.some_ne_none _ none') (fun all => type all.1)

theorem alterationNone [Letters] {env : Env} {col : ColumnInfo} {f : Field} : alteration env col f = [] ↔ difference env col f = none := by
  unfold alteration
  cases difference env col f <;> simp

theorem tableNone [Letters] {env : Env} {db : SchemaSnapshot} {m : Model} {ts : TableSnapshot}
    (found : db.lookup (toLower m.table) = some ts) : (planOne env db m).alterColumns = [] ↔
      ∀ f ∈ m.fields, f.migrated = true → ∀ col, ts.column f = some col → difference env col f = none := by
  have whole : (planOne env db m).alterColumns = (existing ts m).flatMap (fun c => alteration env c.1 c.2) := by
    rw [planOne,found]
    rfl
  rw [whole,List.flatMap_eq_nil_iff]
  constructor
  · intro all f mem migrated col is
    have inside : (col,f) ∈ existing ts m := List.mem_filterMap.mpr ⟨f,List.mem_filter.mpr ⟨mem,migrated⟩,by rw [is]; rfl⟩
    exact alterationNone.mp (all (col,f) inside)
  · rintro all ⟨col,f⟩ inside
    obtain ⟨g,kept,same⟩ := List.mem_filterMap.mp inside
    obtain ⟨mem,migrated⟩ := List.mem_filter.mp kept
    obtain ⟨col',is,pair⟩ := Option.map_eq_some_iff.mp same
    cases pair
    exact alterationNone.mpr (all f mem migrated col is)

namespace MySQL
variable [Letters] (sql : MySQL) (env : Env)

def column (f : Field) : ColumnInfo :=
  ⟨normalizeType (sql.type f),f.wantNullable,sql.default f,toLower (sql.collation f)⟩

structure Stable (f : Field) : Prop where
  name : ¬ Aliased (splitCollate f.typeTag).1
  type : Spells (splitCollate f.typeTag).1 (sql.type f)
  collation : f.wantCollation = [] ∨ sql.collation f = [] ∨ f.wantCollation = toLower (sql.collation f)
  default : ∀ want reported, f.wantDefault = some want → sql.default f = some reported → sameDefault env want reported = true

/- The columns after a migration that applied what was planned: each as MySQL made it from the
tag, or as it was before where nothing differed. -/
def Applied (db db' : SchemaSnapshot) (models : List Model) : Prop :=
  ∀ m ∈ models, ∃ ts, db'.lookup (toLower m.table) = some ts ∧ ∀ f ∈ m.fields, f.migrated = true →
    ∃ col, ts.column f = some col ∧ (col = sql.column f ∨
      ∃ before, db.lookup (toLower m.table) = some before ∧ before.column f = some col ∧ difference env col f = none)

def Written (db' : SchemaSnapshot) (m : Model) (f : Field) : Prop :=
  ∃ ts, db'.lookup (toLower m.table) = some ts ∧ ts.column f = some (sql.column f)

variable {sql env} {db db' : SchemaSnapshot} {models : List Model} {ps : List TablePlan} {f : Field}

theorem stableIff : difference env (sql.column f) f = none ↔ sql.Stable env f := by
  have spelled : normalizeType (splitCollate f.typeTag).1 = normalizeType (sql.type f) ↔
      Spells (splitCollate f.typeTag).1 (sql.type f) := spellsIff (sql.reported f)
  have lower : toLower (sql.collation f) = [] ↔ sql.collation f = [] := List.map_eq_nil_iff
  rw [differenceNone]
  simp only [Field.want,column,spelled,lower,true_and]
  constructor
  · rintro ⟨spells,collation,default⟩
    exact ⟨fun other => aliasNever (sql.reported f) other spells,spells,collation,default⟩
  · intro stable
    exact ⟨stable.type,stable.collation,stable.default⟩

theorem converges (applied : sql.Applied env db db' models) (ok : migratePlan env db' models = .ok ps) :
    (∀ p ∈ ps, p.alterColumns = []) ↔
      ∀ m ∈ models, ∀ f ∈ m.fields, f.migrated = true → sql.Written db' m f → sql.Stable env f := by
  have plans : ps = models.map (planOne env db') := by
    unfold migratePlan at ok
    split at ok
    · cases ok
    · cases ok
      rfl
  subst plans
  constructor
  · rintro none' m mem f field migrated ⟨ts,found,is⟩
    have unaltered := none' (planOne env db' m) (List.mem_map_of_mem mem)
    have same : difference env (sql.column f) f = none := (tableNone found).mp unaltered f field migrated _ is
    exact stableIff.mp same
  · intro stable p inside
    obtain ⟨m,mem,rfl⟩ := List.mem_map.mp inside
    obtain ⟨ts,found,columns⟩ := applied m mem
    refine (tableNone found).mpr (fun f field migrated col is => ?_)
    obtain ⟨col',is',made⟩ := columns f field migrated
    cases Option.some.inj (is.symm.trans is')
    rcases made with rfl | ⟨before,_,_,same⟩
    · have settled : sql.Stable env f := stable m mem f field migrated ⟨ts,found,is⟩
      exact stableIff.mpr settled
    · exact same

end MySQL

def reports : MySQL where
  type f :=
    if squeeze f.typeTag = chars "integer" then chars "int"
    else if squeeze f.typeTag = chars "bigint(20) unsigned" then chars "bigint unsigned"
    else chars "text"
  default f := f.wantDefault
  collation _ := []
  reported f := by
    split
    · exact ⟨by decide,by decide,by decide⟩
    split
    · exact ⟨by decide,by decide,by decide⟩
    · exact ⟨by decide,by decide,by decide⟩

def exactly : Env := ⟨fun a b => a == b⟩
def counter (typeTag : String) : Field := ⟨chars "Count",chars "count",chars typeTag,true,false,false,some (chars "0")⟩
def tally (typeTag : String) : Model := ⟨chars "Tally",chars "tally",[counter typeTag],[]⟩
def counted (typeTag : String) : TableSnapshot := ⟨[(chars "count",reports.column (counter typeTag))],[]⟩
def tallied (typeTag : String) : SchemaSnapshot := [(chars "tally",counted typeTag)]

theorem tallyApplied (typeTag : String) : reports.Applied exactly [] (tallied typeTag) [tally typeTag] := by
  intro m mem
  cases List.mem_singleton.mp mem
  refine ⟨counted typeTag,rfl,fun f field _ => ?_⟩
  cases List.mem_singleton.mp field
  exact ⟨reports.column (counter typeTag),rfl,.inl rfl⟩

theorem integerAgain : ¬ ∀ (sql : MySQL) (env : Env) db db' models ps, sql.Applied env db db' models →
    migratePlan env db' models = .ok ps → ∀ p ∈ ps, p.alterColumns = [] := by
  intro all
  have planned : migratePlan exactly (tallied "integer") [tally "integer"] =
      .ok [planOne exactly (tallied "integer") (tally "integer")] := by decide
  exact absurd (all _ _ _ _ _ _ (tallyApplied "integer") planned _ List.mem_cons_self) (by decide)

theorem bigintSettles : (planOne exactly (tallied "BIGINT(20)  Unsigned") (tally "BIGINT(20)  Unsigned")).alterColumns = [] := by
  have planned : migratePlan exactly (tallied "BIGINT(20)  Unsigned") [tally "BIGINT(20)  Unsigned"] =
      .ok [planOne exactly (tallied "BIGINT(20)  Unsigned") (tally "BIGINT(20)  Unsigned")] := by decide
  refine (MySQL.converges (tallyApplied _) planned).mpr (fun m mem f field _ _ => ?_) _ List.mem_cons_self
  cases List.mem_singleton.mp mem
  cases List.mem_singleton.mp field
  refine ⟨by decide,by decide,by decide,fun want reported wants reports => ?_⟩
  cases Option.some.inj (wants.symm.trans reports)
  exact Bool.or_eq_true_iff.mpr (.inl (beq_self_eq_true want))

end DevkitCommon.Migrate
