import DevkitCommon.Migrate.Types
import Mathlib.Data.Char
import Mathlib.Data.List.Lex
import Mathlib.Data.List.Sort

/-! The plan of a migration: what the tables lack of the models and which columns differ, the
refusal of what narrows, and what is altered then. GORM decides itself which columns of a
table it alters, and writes the whole column as its tag has it. -/
namespace DevkitCommon.Migrate
open Words

structure Field where
  name : Text
  dbName : Text
  typeTag : Text
  notNull : Bool
  primaryKey : Bool
  ignoreMigration : Bool
  default : Option Text
  deriving DecidableEq, Repr

structure Model where
  name : Text
  table : Text
  fields : List Field
  indexes : List Text
  deriving DecidableEq, Repr

structure ColumnInfo where
  type : Text
  nullable : Bool
  default : Option Text
  collation : Text
  deriving DecidableEq, Repr

structure TableSnapshot where
  columns : List (Text × ColumnInfo)
  indexes : List Text
  deriving DecidableEq, Repr

abbrev SchemaSnapshot := List (Text × TableSnapshot)

structure TablePlan where
  table : Text
  model : Model
  create : Bool
  addColumns : List Text
  addIndexes : List Text
  alterColumns : List Text
  narrowing : List Text
  collate : List Text
  deriving DecidableEq, Repr

def Field.migrated (f : Field) : Bool := f.dbName != [] && !f.ignoreMigration

def Field.want [Letters] (f : Field) : Text := normalizeType (splitCollate f.typeTag).1
def Field.wantCollation [Letters] (f : Field) : Text := (splitCollate f.typeTag).2
def Field.wantNullable (f : Field) : Bool := !(f.notNull || f.primaryKey)

def quoteMark (c : Char) : Bool := c == '\'' || c == '"'
def Field.wantDefault (f : Field) : Option Text := f.default.map (fun d => trim quoteMark (trimSpace d))

def TableSnapshot.column [Letters] (ts : TableSnapshot) (f : Field) : Option ColumnInfo := ts.columns.lookup (toLower f.dbName)

/- sameNumber: both texts are read by strconv.ParseFloat, as one number. -/
structure Env where
  sameNumber : Text → Text → Bool

def nullability (nullable : Bool) : Text := if nullable then chars "NULL" else chars "NOT NULL"

inductive Difference where
  | type
  | collation
  | nullable
  | default
  deriving DecidableEq, Repr

section Fields
variable (env : Env)

def sameDefault (a b : Text) : Bool := a == b || env.sameNumber (trimSpace a) (trimSpace b)

def difference [Letters] (col : ColumnInfo) (f : Field) : Option Difference :=
  if f.want ≠ col.type then some .type
  else if f.wantCollation ≠ [] ∧ col.collation ≠ [] ∧ f.wantCollation ≠ col.collation then some .collation
  else if f.wantNullable ≠ col.nullable then some .nullable
  else match f.wantDefault,col.default with
    | some want,some have' => if sameDefault env want have' then none else some .default
    | _,_ => none

def binary (collation : Text) : Bool := hasSuffix collation (chars "_bin")

def refused [Letters] (col : ColumnInfo) (f : Field) : Option Difference → Bool
  | some .type => narrows col.type f.want
  | some .collation => !binary f.wantCollation
  | _ => false

def arrow (a b : Text) : Text := a ++ chars " -> " ++ b

def described [Letters] (col : ColumnInfo) (f : Field) : Difference → Text
  | .type => arrow col.type f.want
  | .collation => chars "collate " ++ arrow col.collation f.wantCollation
  | .nullable => arrow (nullability col.nullable) (nullability f.wantNullable)
  | .default => chars "default " ++
      arrow (chars "'" ++ col.default.getD [] ++ chars "'") (chars "'" ++ f.wantDefault.getD [] ++ chars "'")

def alteration [Letters] (col : ColumnInfo) (f : Field) : List Text :=
  ((difference env col f).map (fun d => f.dbName ++ chars ": " ++ described col f d)).toList

def refusal [Letters] (table : Text) (col : ColumnInfo) (f : Field) : List Text :=
  if refused col f (difference env col f) then
    [table ++ chars "." ++ f.dbName ++ chars ": " ++ ((difference env col f).elim [] (described col f)) ++
      if difference env col f = some .collation then chars " (only a *_bin collation is applied automatically)" else []]
  else []

def collates [Letters] (col : ColumnInfo) (f : Field) : List Text :=
  if difference env col f = some .collation ∧ refused col f (some .collation) = false then [f.name] else []

end Fields

section Plan
variable (env : Env)

def existing [Letters] (ts : TableSnapshot) (m : Model) : List (ColumnInfo × Field) :=
  (m.fields.filter Field.migrated).filterMap (fun f => (ts.column f).map (fun col => (col,f)))

def planTable [Letters] (ts : TableSnapshot) (m : Model) : TablePlan where
  table := m.table
  model := m
  create := false
  addColumns := ((m.fields.filter Field.migrated).filter (fun f => (ts.column f).isNone)).map Field.dbName
  addIndexes := (m.indexes.filter (fun i => !ts.indexes.contains (toLower i))).insertionSort (fun a b => a ≤ b)
  alterColumns := (existing ts m).flatMap (fun c => alteration env c.1 c.2)
  narrowing := (existing ts m).flatMap (fun c => refusal env m.table c.1 c.2)
  collate := (existing ts m).flatMap (fun c => collates env c.1 c.2)

def planOne [Letters] (db : SchemaSnapshot) (m : Model) : TablePlan :=
  match db.lookup (toLower m.table) with
  | none => ⟨m.table,m,true,[],[],[],[],[]⟩
  | some ts => planTable env ts m

def untyped (m : Model) : List Text :=
  ((m.fields.filter Field.migrated).filter (fun f => trimSpace f.typeTag == [])).map Field.name

def checkModel (m : Model) : Option Text :=
  if untyped m = [] then none
  else some (chars "kitexx: auto migrate: " ++ m.name ++ chars ": fields without an explicit type in the gorm tag: " ++
    (chars ", ").intercalate (untyped m) ++
    chars " (write `gorm:\"column:x;type:varchar(64);not null\"`; the column type is a decision, not GORM's default)")

def migratePlan [Letters] (db : SchemaSnapshot) (models : List Model) : Except Text (List TablePlan) :=
  match models.findSome? checkModel with
  | some e => .error e
  | none => .ok (models.map (planOne env db))

def TablePlan.changes (p : TablePlan) : Bool :=
  p.create || p.addColumns != [] || p.addIndexes != [] || p.alterColumns != []

def changed (ps : List TablePlan) : List TablePlan := ps.filter TablePlan.changes

def refuseNarrowing (ps : List TablePlan) : Option Text :=
  let all := ps.flatMap TablePlan.narrowing
  if all = [] then none
  else some (chars "kitexx: auto migrate refuses to narrow a column, it could truncate data: " ++ (chars "; ").intercalate all ++
    chars ". Convert the data and alter the column with a hand-written migration, then start the service")

end Plan

/- GORM and the server. alters: AutoMigrate alters the column of this field. collation: what a
column gets that is written as the field's tag has it, empty for none. -/
structure Database where
  alters : Model → Field → ColumnInfo → Bool
  collation : Model → Field → Text

def Database.Stated [Letters] (d : Database) : Prop :=
  ∀ m f, f.wantCollation ≠ [] → d.collation m f = f.wantCollation ∨ d.collation m f = []

/- The columns that a migration alters: those of AutoMigrate of a table that changes, and
those of AlterColumn. -/
def altered [Letters] (env : Env) (d : Database) (db : SchemaSnapshot) (models : List Model) : List (Model × ColumnInfo × Field) :=
  (changed (models.map (planOne env db))).flatMap (fun p =>
    match db.lookup (toLower p.table) with
    | none => []
    | some ts => ((existing ts p.model).filter (fun c =>
        d.alters p.model c.2 c.1 || p.collate.contains c.2.name)).map (fun c => (p.model,c.1,c.2)))

end DevkitCommon.Migrate
