import DevkitCommon.Migrate.Types

/-! The column types of MySQL and the texts that describe them: integers, decimals, strings of
a stated length and large objects, and how splitType and narrows read the texts. -/
namespace DevkitCommon.Migrate
open Words

section Kinds

inductive IntKind where
  | tinyint
  | flag
  | smallint
  | mediumint
  | int
  | integer
  | bigint
  deriving DecidableEq, Repr

inductive DecimalKind where
  | decimal
  | numeric
  deriving DecidableEq, Repr

inductive StringKind where
  | char
  | varchar
  | binary
  | varbinary
  deriving DecidableEq, Repr

inductive Extent where
  | tiny
  | plain
  | medium
  | long
  deriving DecidableEq, Repr

def IntKind.base : IntKind → Text
  | .tinyint | .flag => chars "tinyint"
  | .smallint => chars "smallint"
  | .mediumint => chars "mediumint"
  | .int => chars "int"
  | .integer => chars "integer"
  | .bigint => chars "bigint"

def IntKind.rank : IntKind → Nat
  | .tinyint | .flag => 1
  | .smallint => 2
  | .mediumint => 3
  | .int | .integer => 4
  | .bigint => 5

def DecimalKind.base : DecimalKind → Text
  | .decimal => chars "decimal"
  | .numeric => chars "numeric"

def StringKind.base : StringKind → Text
  | .char => chars "char"
  | .varchar => chars "varchar"
  | .binary => chars "binary"
  | .varbinary => chars "varbinary"

def StringKind.fixed : StringKind → Bool
  | .char | .binary => true
  | .varchar | .varbinary => false

def Extent.rank : Extent → Nat
  | .tiny => 1
  | .plain => 2
  | .medium => 3
  | .long => 4

def largeBase : Bool → Extent → Text
  | false,.tiny => chars "tinytext"
  | false,.plain => chars "text"
  | false,.medium => chars "mediumtext"
  | false,.long => chars "longtext"
  | true,.tiny => chars "tinyblob"
  | true,.plain => chars "blob"
  | true,.medium => chars "mediumblob"
  | true,.long => chars "longblob"

end Kinds

structure Digits where
  precision : Nat
  scale : Nat
  positive : 0 < precision
  within : scale ≤ precision
  limit : precision ≤ 65

structure Length (k : StringKind) where
  size : Nat
  written : Bool
  bare : written = false → k.fixed = true ∧ size = 1
  limit : size ≤ 65535

inductive ColType where
  | int (k : IntKind) (isUnsigned : Bool)
  | decimal (k : DecimalKind) (d : Digits) (isUnsigned : Bool)
  | string (k : StringKind) (n : Length k)
  | large (blob : Bool) (x : Extent)

section Texts

def parens (inner : Text) : Text := '('::(inner ++ [')'])

def numeral (n : Nat) : Text := Nat.toDigits 10 n

def signText (isUnsigned : Bool) : Text := if isUnsigned then chars " unsigned" else []
def signRest (isUnsigned : Bool) : Text := if isUnsigned then chars "unsigned" else []

def IntKind.width (k : IntKind) : Text := if k = .flag then parens ['1'] else []

def Length.text {k : StringKind} (n : Length k) : Text := if n.written then parens (numeral n.size) else []

def ColType.text : ColType → Text
  | .int k isUnsigned => k.base ++ (k.width ++ signText isUnsigned)
  | .decimal k d isUnsigned => k.base ++ (parens (numeral d.precision ++ ','::numeral d.scale) ++ signText isUnsigned)
  | .string k n => k.base ++ n.text
  | .large blob x => largeBase blob x

def ColType.parts : ColType → Parts
  | .int k isUnsigned => ⟨k.base,if k = .flag then [1] else [],signRest isUnsigned⟩
  | .decimal k d isUnsigned => ⟨k.base,[(d.precision : Int),(d.scale : Int)],signRest isUnsigned⟩
  | .string k n => ⟨k.base,if n.written then [(n.size : Int)] else [],[]⟩
  | .large blob x => ⟨largeBase blob x,[],[]⟩

end Texts

section Split

theorem idxOfAfter {front : Text} (c : Char) (rest : Text) (plain : c ∉ front) :
    (front ++ c::rest).idxOf? c = some front.length := by
  induction front with
  | nil => simp [List.idxOf?_cons]
  | cons d front ih =>
    have other : (d == c) = false := beq_eq_false_iff_ne.mpr (fun same => plain (same ▸ List.mem_cons_self))
    rw [List.cons_append,List.idxOf?_cons,other,ih (fun mem => plain (List.mem_cons_of_mem d mem))]
    rfl

def paramsOf (inner : Text) : List Int := ((inner.splitOn ',').mapM (fun p => atoi (trimSpace p))).getD []

theorem splitParens {base inner : Text} (rest : Text) (front : '(' ∉ base) (before : ')' ∉ base) (within : ')' ∉ inner) :
    splitType (base ++ (parens inner ++ rest)) = ⟨trimSpace base,paramsOf inner,trimSpace rest⟩ := by
  have whole : base ++ (parens inner ++ rest) = base ++ '('::(inner ++ ')'::rest) := by
    simp [parens]
  have start := idxOfAfter '(' (inner ++ ')'::rest) front
  have inside : ')' ∉ base ++ '('::inner := by
    simp only [List.mem_append,List.mem_cons,not_or]
    exact ⟨before,by decide,within⟩
  have closes : (base ++ '('::(inner ++ ')'::rest)).idxOf? ')' = some (base.length + (inner.length+1)) := by
    have same : base ++ '('::(inner ++ ')'::rest) = (base ++ '('::inner) ++ ')'::rest := by simp
    rw [same,idxOfAfter ')' rest inside,List.length_append,List.length_cons]
  have cut : ((base ++ '('::(inner ++ ')'::rest)).take (base.length + (inner.length+1))).drop (base.length+1) = inner := by
    rw [List.take_length_add_append,← List.drop_drop,List.drop_left,List.take_succ_cons,List.drop_succ_cons,List.drop_zero,
      List.take_left]
  have tail : (base ++ '('::(inner ++ ')'::rest)).drop (base.length + (inner.length+1) + 1) = rest := by
    rw [Nat.add_assoc,← List.drop_drop,List.drop_left,List.drop_succ_cons,← List.drop_drop,List.drop_left]
    rfl
  rw [whole,splitType,start]
  simp only [closes,if_neg (show ¬ base.length + (inner.length+1) < base.length by omega),List.take_left,cut,tail]
  rfl

theorem numeralDigits {n : Nat} {c : Char} (mem : c ∈ numeral n) : c.isDigit = true :=
  Nat.isDigit_of_mem_toDigits (by decide) (by decide) mem

theorem digitPlain {c : Char} (digit : c.isDigit = true) : c ≠ ',' ∧ c ≠ ')' ∧ space c = false := by
  have range : 48 ≤ c.toNat ∧ c.toNat ≤ 57 := by
    simp only [Char.isDigit,Bool.and_eq_true,decide_eq_true_eq,UInt32.le_iff_toNat_le] at digit
    exact digit
  refine ⟨fun same => ?_,fun same => ?_,?_⟩
  · rw [same] at range
    exact absurd range (by decide)
  · rw [same] at range
    exact absurd range (by decide)
  · simp only [space,Bool.or_eq_false_iff,decide_eq_false_iff_not,beq_eq_false_iff_ne]
    omega

theorem atoiNumeral {n : Nat} (small : n ≤ 65535) : atoi (trimSpace (numeral n)) = some (n : Int) := by
  have stays : trimSpace (numeral n) = numeral n := trimPlain (fun c mem => (digitPlain (numeralDigits mem)).2.2)
  have fits : Text.fits 64 (n : Int) = true := by
    have range : (2 : Int)^(64-1) = 9223372036854775808 := rfl
    simp only [Text.fits,decide_eq_true_eq,range]
    omega
  rw [stays,atoi,Text.parseInt,String.toList_ofList,numeral,Text.signedDigits (Text.digitsRepr n),Option.filter_some,fits,
    if_pos rfl]

theorem paramsOne {n : Nat} (small : n ≤ 65535) : paramsOf (numeral n) = [(n : Int)] := by
  have whole : (numeral n).splitOn ',' = [numeral n] :=
    List.splitOn_eq_singleton (fun mem => (digitPlain (numeralDigits mem)).1 rfl)
  rw [paramsOf,whole,List.mapM_cons,atoiNumeral small]
  rfl

theorem paramsTwo {n m : Nat} (small : n ≤ 65535) (small' : m ≤ 65535) :
    paramsOf (numeral n ++ ','::numeral m) = [(n : Int),(m : Int)] := by
  have whole : (numeral n ++ ','::numeral m).splitOn ',' = [numeral n,numeral m] := by
    rw [List.splitOn_append_cons_self,List.splitOn_eq_singleton (fun mem => (digitPlain (numeralDigits mem)).1 rfl),
      List.splitOn_eq_singleton (fun mem => (digitPlain (numeralDigits mem)).1 rfl)]
    rfl
  rw [paramsOf,whole,List.mapM_cons,atoiNumeral small,List.mapM_cons,atoiNumeral small']
  rfl

theorem signTrimmed (isUnsigned : Bool) : trimSpace (signText isUnsigned) = signRest isUnsigned := by
  cases isUnsigned <;> decide

theorem splitText (t : ColType) : splitType t.text = t.parts := by
  cases t with
  | int k isUnsigned => cases k <;> cases isUnsigned <;> decide
  | decimal k d isUnsigned =>
    have inner : ')' ∉ numeral d.precision ++ ','::numeral d.scale := by
      simp only [List.mem_append,List.mem_cons,not_or]
      exact ⟨fun mem => (digitPlain (numeralDigits mem)).2.1 rfl,by decide,fun mem => (digitPlain (numeralDigits mem)).2.1 rfl⟩
    have base : '(' ∉ k.base ∧ ')' ∉ k.base ∧ trimSpace k.base = k.base := by cases k <;> decide
    rw [ColType.text,splitParens _ base.1 base.2.1 inner,base.2.2,
      paramsTwo (by have := d.limit; omega) (by have := d.within; have := d.limit; omega),signTrimmed]
    rfl
  | string k n =>
    cases written : n.written with
    | false =>
      rw [ColType.text,ColType.parts,Length.text,written,if_neg Bool.false_ne_true,if_neg Bool.false_ne_true,List.append_nil]
      cases k <;> decide
    | true =>
      have base : '(' ∉ k.base ∧ ')' ∉ k.base ∧ trimSpace k.base = k.base := by cases k <;> decide
      have whole : ColType.text (.string k n) = k.base ++ (parens (numeral n.size) ++ []) := by
        simp [ColType.text,Length.text,written]
      rw [whole,splitParens [] base.1 base.2.1 (fun mem => (digitPlain (numeralDigits mem)).2.1 rfl),base.2.2,
        paramsOne n.limit,ColType.parts,written]
      rfl
  | large blob x => cases blob <;> cases x <;> decide

end Split

end DevkitCommon.Migrate
