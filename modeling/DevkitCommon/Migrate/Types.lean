import DevkitCommon.Lib.Text
import DevkitCommon.Lib.Words

/-! Column types as texts: the form in which a type of a tag and one of information_schema
are compared, its parts, the collation a tag states, and whether a change of type narrows. -/
namespace DevkitCommon.Migrate
open Words

def chars (s : String) : Text := s.toList

section Parts

def atoi (t : Text) : Option Int := Text.parseInt 64 (String.ofList t)

structure Parts where
  base : Text
  params : List Int
  rest : Text
  deriving DecidableEq, Repr

def splitType (t : Text) : Parts :=
  match t.idxOf? '(' with
  | none =>
    match fields t with
    | [] => ⟨[],[],[]⟩
    | f::rest => ⟨f,[],join rest⟩
  | some start =>
    let base := trimSpace (t.take start)
    match t.idxOf? ')' with
    | none => ⟨base,[],[]⟩
    | some closeAt =>
      if closeAt < start then ⟨base,[],[]⟩
      else
        let params := (((t.take closeAt).drop (start+1)).splitOn ',').mapM (fun p => atoi (trimSpace p))
        ⟨base,params.getD [],trimSpace (t.drop (closeAt+1))⟩

def intRanks : List (Text × Nat) := [(chars "tinyint",1),(chars "smallint",2),(chars "mediumint",3),(chars "int",4),
  (chars "integer",4),(chars "bigint",5)]
def textRanks : List (Text × Nat) := [(chars "tinytext",1),(chars "text",2),(chars "mediumtext",3),(chars "longtext",4),
  (chars "tinyblob",1),(chars "blob",2),(chars "mediumblob",3),(chars "longblob",4)]

def intRank (base : Text) : Nat := (intRanks.lookup base).getD 0
def textRank (base : Text) : Nat := (textRanks.lookup base).getD 0
def sized (base : Text) : Bool :=
  base ∈ [chars "varchar",chars "char",chars "varbinary",chars "binary"]
def exact (base : Text) : Bool := base ∈ [chars "decimal",chars "numeric"]

end Parts

def respace (t : Text) : Text :=
  replaceAll (chars " (") (chars "(") (replaceAll (chars " ,") (chars ",") (replaceAll (chars ", ") (chars ",") t))

def normalizeType [Letters] (t : Text) : Text :=
  let t := respace (join (fields (toLower (trimSpace t))))
  if t = chars "bool" ∨ t = chars "boolean" then chars "tinyint(1)"
  else
    let p := splitType t
    if 0 < intRank p.base ∧ ¬ (p.base = chars "tinyint" ∧ p.params = [1]) then
      trimSpace (p.base ++ chars " " ++ p.rest)
    else t

/- The loop over the fields of a tag's type, so many of which are of a clause still: what is
kept and the collation. -/
def collateFrom [Letters] : Nat → List Text → Text → List Text × Text
  | _,[],collation => ([],collation)
  | skip+1,_::rest,collation => collateFrom skip rest collation
  | 0,f::rest,collation =>
    if toLower f = chars "collate" then collateFrom 1 rest (rest.head?.elim collation toLower)
    else if toLower f = chars "character" ∧ 2 ≤ rest.length ∧ rest.head?.any (fun g => equalFold g (chars "set")) then
      collateFrom 2 rest collation
    else if toLower f = chars "charset" then collateFrom 1 rest collation
    else
      let more := collateFrom 0 rest collation
      (f::more.1,more.2)

def splitCollate [Letters] (t : Text) : Text × Text :=
  let got := collateFrom 0 (fields (trimSpace t)) []
  (join got.1,got.2)

def narrows (have' want : Text) : Bool :=
  let h := splitType have'
  let w := splitType want
  if sized h.base ∧ sized w.base then
    match h.params,w.params with
    | [n],[m] => decide (m < n)
    | _,_ => false
  else if 0 < intRank h.base ∧ 0 < intRank w.base then
    if intRank w.base < intRank h.base then true
    else !contains h.rest (chars "unsigned") && contains w.rest (chars "unsigned")
  else if exact h.base ∧ exact w.base then
    match h.params,w.params with
    | [p,s],[q,u] => decide (q < p ∨ u < s)
    | _,_ => false
  else if 0 < textRank h.base ∧ 0 < textRank w.base then decide (textRank w.base < textRank h.base)
  else if 0 < textRank h.base ∧ sized w.base then true
  else false

end DevkitCommon.Migrate
