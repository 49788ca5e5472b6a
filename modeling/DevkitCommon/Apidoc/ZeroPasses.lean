import DevkitCommon.Apidoc.Expressions
import Mathlib.Logic.Relation

/-! What an expression of api.vd means on the zero value, by its grammar: ! binds before the
comparisons, these before && and ||, and a backslash before a quote or another is an escape. -/
namespace DevkitCommon.Apidoc.Expressions
open Words

section Lexing

inductive Closed (q : Char) : Text → Prop where
  | nil : Closed q []
  | pair {c body} (more : Closed q body) : Closed q ('\\'::c::body)
  | char {c body} (other : c ≠ q) (plain : c ≠ '\\') (more : Closed q body) : Closed q (c::body)

inductive Token : Text → Prop where
  | double {t} (mem : t ∈ doubles) : Token t
  | single {c} (mem : c ∈ singles) : Token [c]
  | word {t} (some' : t ≠ []) (all : ∀ c ∈ t, wordChar c = true) : Token t
  | literal {q body} (quote : isQuote q = true) (closed : Closed q body) : Token (q::(body ++ [q]))

structure Apart (t s : Text) : Prop where
  word : (∀ c ∈ t, wordChar c = true) → ∀ c, s.head? = some c → wordChar c = false
  double : ∀ c, s.head? = some c → t ++ [c] ∉ doubles

inductive Lexes : Text → List Text → Prop where
  | done : Lexes [] []
  | blank {c s ts} (is : isBlank c = true) (more : Lexes s ts) : Lexes (c::s) ts
  | token {t s ts} (is : Token t) (apart : Apart t s) (more : Lexes s ts) : Lexes (t ++ s) (t::ts)

def resolve : Text → Text
  | '\\'::c::rest => if c = '\\' ∨ isQuote c = true then c::resolve rest else '\\'::c::resolve rest
  | c::rest => c::resolve rest
  | [] => []

end Lexing
section Meaning

inductive ZeroOf : Val → Val → Prop where
  | num {x} : ZeroOf (.num 0) (.num x)
  | str {s} : ZeroOf (.str []) (.str s)
  | bool {b} : ZeroOf (.bool false) (.bool b)
  | nil : ZeroOf .nil .nil

inductive Compares : Val → Op → Val → Bool → Prop where
  | num {a op b} : Compares (.num a) op (.num b) (cmpOrdered a op b)
  | str {a op b} : Compares (.str a) op (.str b) (cmpOrdered a op b)
  | boolEq {a b} : Compares (.bool a) .eq (.bool b) (a == b)
  | boolNe {a b} : Compares (.bool a) .ne (.bool b) (a != b)
  | nils {op} (equality : op.equality = true) : Compares .nil op .nil (op == .eq)
  | nilLeft {op v} (equality : op.equality = true) (other : v ≠ .nil ∧ v ≠ .zero) : Compares .nil op v (op == .ne)
  | nilRight {op v} (equality : op.equality = true) (other : v ≠ .nil ∧ v ≠ .zero) : Compares v op .nil (op == .ne)
  | zeroLeft {z op v b} (zero : ZeroOf z v) (same : Compares z op v b) : Compares .zero op v b
  | zeroRight {v op z b} (zero : ZeroOf z v) (same : Compares v op z b) : Compares v op .zero b
  | zeros {op} (equality : op.equality = true) : Compares .zero op .zero (op == .eq)

inductive Head where
  | paren
  | zero
  | nil
  | bool (b : Bool)
  | minus
  | literal
  | number
  | len
  | regexp
  | check
  | other
  deriving DecidableEq

def headOf (t : Text) : Head :=
  if t = "(".toList then .paren
  else if t = "$".toList then .zero
  else if t = "nil".toList then .nil
  else if t = "true".toList ∨ t = "false".toList then .bool (t = "true".toList)
  else if t = "-".toList then .minus
  else if literalLike t then .literal
  else if numberLike t then .number
  else if t = "len".toList ∨ t = "mblen".toList then .len
  else if t = "regexp".toList then .regexp
  else if t = "email".toList ∨ t = "phone".toList then .check
  else .other

inductive Level where
  | or
  | orRest (l : Val)
  | and
  | andRest (l : Val)
  | eq
  | eqRest (l : Val)
  | rel
  | relRest (l : Val)
  | unary
  | prim
  | args

def Stops (equality : Bool) (us : List Text) : Prop :=
  ∀ t op, us.head? = some t → opOf t = some op → op.equality ≠ equality

inductive Reads (env : Env) : Level → List Text → Val → List Text → Prop where
  | or {ts l us v ws} (first : Reads env .and ts l us) (more : Reads env (.orRest l) us v ws) : Reads env .or ts v ws
  | orStop {l us} (stop : us.head? ≠ some "||".toList) : Reads env (.orRest l) us l us
  | orMore {a b t us ws v xs} (is : t = "||".toList) (next : Reads env .and us (.bool b) ws)
      (more : Reads env (.orRest (.bool (a || b))) ws v xs) : Reads env (.orRest (.bool a)) (t::us) v xs
  | and {ts l us v ws} (first : Reads env .eq ts l us) (more : Reads env (.andRest l) us v ws) : Reads env .and ts v ws
  | andStop {l us} (stop : us.head? ≠ some "&&".toList) : Reads env (.andRest l) us l us
  | andMore {a b t us ws v xs} (is : t = "&&".toList) (next : Reads env .eq us (.bool b) ws)
      (more : Reads env (.andRest (.bool (a && b))) ws v xs) : Reads env (.andRest (.bool a)) (t::us) v xs
  | eq {ts l us v ws} (first : Reads env .rel ts l us) (more : Reads env (.eqRest l) us v ws) : Reads env .eq ts v ws
  | eqStop {l us} (stop : Stops true us) : Reads env (.eqRest l) us l us
  | eqMore {l t op us r b ws v xs} (is : opOf t = some op) (kind : op.equality = true) (next : Reads env .rel us r ws)
      (value : Compares l op r b) (more : Reads env (.eqRest (.bool b)) ws v xs) : Reads env (.eqRest l) (t::us) v xs
  | rel {ts l us v ws} (first : Reads env .unary ts l us) (more : Reads env (.relRest l) us v ws) : Reads env .rel ts v ws
  | relStop {l us} (stop : Stops false us) : Reads env (.relRest l) us l us
  | relMore {l t op us r b ws v xs} (is : opOf t = some op) (kind : op.equality = false) (next : Reads env .unary us r ws)
      (value : Compares l op r b) (more : Reads env (.relRest (.bool b)) ws v xs) : Reads env (.relRest l) (t::us) v xs
  | unaryNot {t us b ws} (is : t = "!".toList) (inner : Reads env .unary us (.bool b) ws) :
      Reads env .unary (t::us) (.bool (!b)) ws
  | unary {ts v us} (other : ts.head? ≠ some "!".toList) (inner : Reads env .prim ts v us) : Reads env .unary ts v us
  | paren {t us v c ws} (is : headOf t = .paren) (inner : Reads env .or us v (c::ws)) (close : c = ")".toList) :
      Reads env .prim (t::us) v ws
  | zero {t us} (is : headOf t = .zero) : Reads env .prim (t::us) .zero us
  | nil {t us} (is : headOf t = .nil) : Reads env .prim (t::us) .nil us
  | bool {t us b} (is : headOf t = .bool b) : Reads env .prim (t::us) (.bool b) us
  | minus {t us x ws} (is : headOf t = .minus) (inner : Reads env .prim us (.num x) ws) : Reads env .prim (t::us) (.num (-x)) ws
  | literal {t us q body} (is : headOf t = .literal) (form : t = q::(body ++ [q])) (closed : Closed q body) :
      Reads env .prim (t::us) (.str (resolve body)) us
  | number {t us x} (is : headOf t = .number) (word : ∀ c ∈ t, wordChar c = true) (double : env.parseFloat t = some x) :
      Reads env .prim (t::us) (.num x) us
  | len {t a b c us} (is : headOf t = .len) (form : [a,b,c] = ["(","$",")"].map String.toList) :
      Reads env .prim (t::a::b::c::us) (.num 0) us
  | regexp {t a us s c b ws} (is : headOf t = .regexp) (form : a = "(".toList) (inner : Reads env .prim us (.str s) (c::ws))
      (close : c = ")".toList) (passes : env.compile s = .ok b) : Reads env .prim (t::a::us) (.bool b) ws
  | regexpOf {t a us s d e c b ws} (is : headOf t = .regexp) (form : a = "(".toList)
      (inner : Reads env .prim us (.str s) (d::e::c::ws)) (close : [d,e,c] = [",","$",")"].map String.toList)
      (passes : env.compile s = .ok b) : Reads env .prim (t::a::us) (.bool b) ws
  | check {t a b us v ws} (is : headOf t = .check) (form : [a,b] = ["(","$"].map String.toList)
      (more : Reads env .args us v ws) : Reads env .prim (t::a::b::us) v ws
  | argsStop {t us} (is : t = ")".toList) : Reads env .args (t::us) (.bool false) us
  | argsMore {t us a ws v xs} (is : t = ",".toList) (next : Reads env .prim us a ws) (more : Reads env .args ws v xs) :
      Reads env .args (t::us) v xs

def Denotes (env : Env) (s : Text) (v : Val) : Prop := ∃ ts, Lexes s ts ∧ Reads env .or ts v []

def Right (env : Env) (s : Text) : Prop := ∀ b, zeroPasses env s = some (.ok b) → ∀ v, Denotes env s v ↔ v = .bool b

inductive Calls (env : Env) : Goal × List Text → Goal × List Text → Prop where
  | or {ts} : Calls env (.or,ts) (.and,ts)
  | orRest {ts l us n} (first : parse env n .and ts = some (.ok (l,us))) : Calls env (.or,ts) (.orRest l,us)
  | orNext {l t ts} (is : t = "||".toList) : Calls env (.orRest l,t::ts) (.and,ts)
  | orMore {a b t ts us n} (is : t = "||".toList) (next : parse env n .and ts = some (.ok (.bool b,us))) :
      Calls env (.orRest (.bool a),t::ts) (.orRest (.bool (a || b)),us)
  | and {ts} : Calls env (.and,ts) (.not,ts)
  | andRest {ts l us n} (first : parse env n .not ts = some (.ok (l,us))) : Calls env (.and,ts) (.andRest l,us)
  | andNext {l t ts} (is : t = "&&".toList) : Calls env (.andRest l,t::ts) (.not,ts)
  | andMore {a b t ts us n} (is : t = "&&".toList) (next : parse env n .not ts = some (.ok (.bool b,us))) :
      Calls env (.andRest (.bool a),t::ts) (.andRest (.bool (a && b)),us)
  | bang {t ts} (is : t = "!".toList) : Calls env (.not,t::ts) (.not,ts)
  | not {ts} (other : ts.head? ≠ some "!".toList) : Calls env (.not,ts) (.cmp,ts)
  | left {ts} : Calls env (.cmp,ts) (.prim,ts)
  | right {ts l t op us n} (first : parse env n .prim ts = some (.ok (l,t::us))) (is : opOf t = some op) :
      Calls env (.cmp,ts) (.prim,us)
  | paren {t ts} (is : t = "(".toList) : Calls env (.prim,t::ts) (.or,ts)
  | minus {t ts} (is : t = "-".toList) : Calls env (.prim,t::ts) (.prim,ts)
  | pattern {t a ts} (is : t = "regexp".toList) (form : a = "(".toList) : Calls env (.prim,t::a::ts) (.prim,ts)
  | check {t a b ts} (is : t = "email".toList ∨ t = "phone".toList) (form : [a,b] = ["(","$"].map String.toList) :
      Calls env (.prim,t::a::b::ts) (.args,ts)
  | arg {t ts} (is : t = ",".toList) : Calls env (.args,t::ts) (.prim,ts)
  | args {t ts v us n} (is : t = ",".toList) (next : parse env n .prim ts = some (.ok (v,us))) :
      Calls env (.args,t::ts) (.args,us)

/- A reading comes to another in so many calls. -/
def Comes (env : Env) : Goal × List Text → Goal × List Text → Prop := Relation.ReflTransGen (Calls env)

def Unescaped (t : Text) : Prop := ∀ c, c = '\\' ∨ isQuote c = true → ¬ ['\\',c] <:+: t

def Plain (env : Env) (g : Goal) (ts : List Text) : Prop :=
  ∀ t rest, Comes env (g,ts) (.prim,t::rest) → literalLike t = true → Unescaped t

def Compared (us : List Text) : Prop := ∃ t op, us.head? = some t ∧ opOf t = some op

def Tight (env : Env) (g : Goal) (ts : List Text) : Prop :=
  ∀ back v rest, Comes env (g,ts) (.not,"!".toList::back) → Reads env .unary back v rest → ¬ Compared rest

end Meaning
section Comparisons
variable {l r v : Val} {op : Op} {b : Bool}

theorem zeroAsZero {z : Val} (zero : ZeroOf z v) : zeroAs v = z ∧ v ≠ .zero ∧ z ≠ .zero := by
  cases zero <;> exact ⟨rfl,nofun,nofun⟩

theorem zeroOfZeroAs (set : v ≠ .zero) : ZeroOf (zeroAs v) v := by
  cases v with
  | zero => exact absurd rfl set
  | num x => exact .num
  | str s => exact .str
  | bool b => exact .bool
  | nil => exact .nil

theorem zeroAsSet : zeroAs v ≠ .zero := by cases v <;> exact nofun

theorem compareLeft (set : v ≠ .zero) : compare .zero op v = compare (zeroAs v) op v := by
  unfold compare
  simp only [if_true,set,zeroAsSet,if_false]

theorem compareRight (set : v ≠ .zero) : compare v op .zero = compare v op (zeroAs v) := by
  unfold compare
  simp only [if_true,set,zeroAsSet,if_false]

theorem comparesCompare (is : Compares l op r b) : compare l op r = .ok (.bool b) := by
  induction is with
  | num | str => rfl
  | boolEq => rename_i a b; cases a <;> cases b <;> rfl
  | boolNe => rename_i a b; cases a <;> cases b <;> rfl
  | nils equality => simp [compare,equality]
  | nilLeft equality other =>
    rename_i op v
    cases v with
    | zero => exact absurd rfl other.2
    | nil => exact absurd rfl other.1
    | num | str | bool => simp [compare,equality]
  | nilRight equality other =>
    rename_i op v
    cases v with
    | zero => exact absurd rfl other.2
    | nil => exact absurd rfl other.1
    | num | str | bool => simp [compare,equality]
  | zeroLeft zero same ih =>
    obtain ⟨rfl,set,_⟩ := zeroAsZero zero
    exact (compareLeft set).trans ih
  | zeroRight zero same ih =>
    obtain ⟨rfl,set,_⟩ := zeroAsZero zero
    exact (compareRight set).trans ih
  | zeros equality => simp [compare,zeroAs,equality]

theorem compareSet (left : l ≠ .zero) (right : r ≠ .zero) (is : compare l op r = .ok v) :
    ∃ b, v = .bool b ∧ Compares l op r b := by
  have kind {e : Except String Val} {b : Bool} (taken : (if op.equality then .ok (.bool b) else e) = .ok v)
      (refused : ∃ m, e = .error m) : op.equality = true ∧ v = .bool b := by
    obtain ⟨m,rfl⟩ := refused
    split at taken
    · exact ⟨by assumption,by cases taken; rfl⟩
    · cases taken
  unfold compare at is
  simp only [left,right,if_false] at is
  cases l with
  | zero => exact absurd rfl left
  | nil =>
    cases r with
    | zero => exact absurd rfl right
    | nil =>
      obtain ⟨equality,rfl⟩ := kind is ⟨_,rfl⟩
      exact ⟨_,rfl,.nils equality⟩
    | num | str | bool =>
      obtain ⟨equality,rfl⟩ := kind is ⟨_,rfl⟩
      exact ⟨_,rfl,.nilLeft equality ⟨nofun,nofun⟩⟩
  | num a =>
    cases r with
    | zero => exact absurd rfl right
    | nil =>
      obtain ⟨equality,rfl⟩ := kind is ⟨_,rfl⟩
      exact ⟨_,rfl,.nilRight equality ⟨nofun,nofun⟩⟩
    | num b => cases is; exact ⟨_,rfl,.num⟩
    | str | bool => cases is
  | str a =>
    cases r with
    | zero => exact absurd rfl right
    | nil =>
      obtain ⟨equality,rfl⟩ := kind is ⟨_,rfl⟩
      exact ⟨_,rfl,.nilRight equality ⟨nofun,nofun⟩⟩
    | str b => cases is; exact ⟨_,rfl,.str⟩
    | num | bool => cases is
  | bool a =>
    cases r with
    | zero => exact absurd rfl right
    | nil =>
      obtain ⟨equality,rfl⟩ := kind is ⟨_,rfl⟩
      exact ⟨_,rfl,.nilRight equality ⟨nofun,nofun⟩⟩
    | bool b =>
      obtain ⟨equality,rfl⟩ := kind is ⟨_,rfl⟩
      cases op with
      | eq => exact ⟨_,rfl,by cases a <;> cases b <;> exact .boolEq⟩
      | ne => exact ⟨_,rfl,by cases a <;> cases b <;> exact .boolNe⟩
      | lt | le | gt | ge => cases equality
    | num | str => cases is

theorem compareCompares (is : compare l op r = .ok v) : ∃ b, v = .bool b ∧ Compares l op r b := by
  by_cases left : l = .zero
  · subst left
    by_cases right : r = .zero
    · subst right
      have equality : op.equality = true := by
        cases op with
        | eq | ne => rfl
        | lt | le | gt | ge => cases is
      have whole := comparesCompare (.zeros equality)
      exact ⟨_,Except.ok.inj (is.symm.trans whole),.zeros equality⟩
    · obtain ⟨b,same,compares⟩ := compareSet zeroAsSet right ((compareLeft right).symm.trans is)
      exact ⟨b,same,.zeroLeft (zeroOfZeroAs right) compares⟩
  · by_cases right : r = .zero
    · subst right
      obtain ⟨b,same,compares⟩ := compareSet left zeroAsSet ((compareRight left).symm.trans is)
      exact ⟨b,same,.zeroRight (zeroOfZeroAs left) compares⟩
    · exact compareSet left right is

theorem comparesOne {b' : Bool} (is : Compares l op r b) (other : Compares l op r b') : b = b' := by
  have same := (comparesCompare is).symm.trans (comparesCompare other)
  cases same
  rfl

end Comparisons
section Determined
variable {env : Env} {g : Level} {ts us ws : List Text} {v w : Val}

theorem readsOne (is : Reads env g ts v us) (other : Reads env g ts w ws) : v = w ∧ us = ws := by
  induction is generalizing w ws with
  | or _ _ first more =>
    cases other with
    | or f m =>
      obtain ⟨rfl,rfl⟩ := first f
      exact more m
  | and _ _ first more =>
    cases other with
    | and f m =>
      obtain ⟨rfl,rfl⟩ := first f
      exact more m
  | eq _ _ first more =>
    cases other with
    | eq f m =>
      obtain ⟨rfl,rfl⟩ := first f
      exact more m
  | rel _ _ first more =>
    cases other with
    | rel f m =>
      obtain ⟨rfl,rfl⟩ := first f
      exact more m
  | orStop stop =>
    cases other with
    | orStop => exact ⟨rfl,rfl⟩
    | orMore is => exact absurd (congrArg some is) stop
  | andStop stop =>
    cases other with
    | andStop => exact ⟨rfl,rfl⟩
    | andMore is => exact absurd (congrArg some is) stop
  | orMore is _ _ next more =>
    cases other with
    | orStop stop => exact absurd (congrArg some is) stop
    | orMore _ n m =>
      obtain ⟨same,rfl⟩ := next n
      cases same
      exact more m
  | andMore is _ _ next more =>
    cases other with
    | andStop stop => exact absurd (congrArg some is) stop
    | andMore _ n m =>
      obtain ⟨same,rfl⟩ := next n
      cases same
      exact more m
  | eqStop stop =>
    cases other with
    | eqStop => exact ⟨rfl,rfl⟩
    | eqMore is kind => exact absurd kind (stop _ _ rfl is)
  | relStop stop =>
    cases other with
    | relStop => exact ⟨rfl,rfl⟩
    | relMore is kind => exact absurd kind (stop _ _ rfl is)
  | eqMore is kind _ value _ next more =>
    cases other with
    | eqStop stop => exact absurd kind (stop _ _ rfl is)
    | eqMore is' _ n value' m =>
      obtain ⟨rfl,rfl⟩ := next n
      cases is.symm.trans is'
      cases comparesOne value value'
      exact more m
  | relMore is kind _ value _ next more =>
    cases other with
    | relStop stop => exact absurd kind (stop _ _ rfl is)
    | relMore is' _ n value' m =>
      obtain ⟨rfl,rfl⟩ := next n
      cases is.symm.trans is'
      cases comparesOne value value'
      exact more m
  | unaryNot is _ inner =>
    cases other with
    | unaryNot _ i =>
      obtain ⟨same,rfl⟩ := inner i
      cases same
      exact ⟨rfl,rfl⟩
    | unary no => exact absurd (congrArg some is) no
  | unary no _ inner =>
    cases other with
    | unaryNot is => exact absurd (congrArg some is) no
    | unary _ i => exact inner i
  | paren is _ _ inner =>
    cases other with
    | paren _ i =>
      obtain ⟨rfl,same⟩ := inner i
      exact ⟨rfl,(List.cons.inj same).2⟩
    | zero no | nil no | bool no | minus no | literal no | number no | len no | regexp no | regexpOf no | check no =>
      cases is.symm.trans no
  | zero is =>
    cases other with
    | zero => exact ⟨rfl,rfl⟩
    | paren no | nil no | bool no | minus no | literal no | number no | len no | regexp no | regexpOf no | check no =>
      cases is.symm.trans no
  | nil is =>
    cases other with
    | nil => exact ⟨rfl,rfl⟩
    | paren no | zero no | bool no | minus no | literal no | number no | len no | regexp no | regexpOf no | check no =>
      cases is.symm.trans no
  | bool is =>
    cases other with
    | bool is' =>
      cases is.symm.trans is'
      exact ⟨rfl,rfl⟩
    | paren no | zero no | nil no | minus no | literal no | number no | len no | regexp no | regexpOf no | check no =>
      cases is.symm.trans no
  | minus is _ inner =>
    cases other with
    | minus _ i =>
      obtain ⟨same,rfl⟩ := inner i
      cases same
      exact ⟨rfl,rfl⟩
    | paren no | zero no | nil no | bool no | literal no | number no | len no | regexp no | regexpOf no | check no =>
      cases is.symm.trans no
  | literal is form =>
    cases other with
    | literal _ form' =>
      obtain ⟨rfl,same⟩ := List.cons.inj (form.symm.trans form')
      obtain rfl := List.append_cancel_right same
      exact ⟨rfl,rfl⟩
    | paren no | zero no | nil no | bool no | minus no | number no | len no | regexp no | regexpOf no | check no =>
      cases is.symm.trans no
  | number is _ double =>
    cases other with
    | number _ _ double' =>
      cases double.symm.trans double'
      exact ⟨rfl,rfl⟩
    | paren no | zero no | nil no | bool no | minus no | literal no | len no | regexp no | regexpOf no | check no =>
      cases is.symm.trans no
  | len is =>
    cases other with
    | len => exact ⟨rfl,rfl⟩
    | paren no | zero no | nil no | bool no | minus no | literal no | number no | regexp no | regexpOf no | check no =>
      cases is.symm.trans no
  | regexp is _ _ close passes inner =>
    cases other with
    | regexp _ _ i _ passes' =>
      obtain ⟨same,rest⟩ := inner i
      cases same
      cases passes.symm.trans passes'
      exact ⟨rfl,(List.cons.inj rest).2⟩
    | regexpOf _ _ i close' =>
      obtain ⟨_,rest⟩ := inner i
      have bracket := (List.cons.inj close').1.symm.trans ((List.cons.inj rest).1.symm.trans close)
      exact absurd bracket (by decide)
    | paren no | zero no | nil no | bool no | minus no | literal no | number no | len no | check no =>
      cases is.symm.trans no
  | regexpOf is _ _ close passes inner =>
    cases other with
    | regexpOf _ _ i _ passes' =>
      obtain ⟨same,rest⟩ := inner i
      cases same
      cases passes.symm.trans passes'
      exact ⟨rfl,(List.cons.inj (List.cons.inj (List.cons.inj rest).2).2).2⟩
    | regexp _ _ i close' =>
      obtain ⟨_,rest⟩ := inner i
      have bracket := (List.cons.inj close).1.symm.trans ((List.cons.inj rest).1.trans close')
      exact absurd bracket (by decide)
    | paren no | zero no | nil no | bool no | minus no | literal no | number no | len no | check no =>
      cases is.symm.trans no
  | check is _ _ more =>
    cases other with
    | check _ _ m => exact more m
    | paren no | zero no | nil no | bool no | minus no | literal no | number no | len no | regexp no | regexpOf no =>
      cases is.symm.trans no
  | argsStop is =>
    cases other with
    | argsStop => exact ⟨rfl,rfl⟩
    | argsMore is' => exact absurd (is.symm.trans is') (by decide)
  | argsMore is _ _ next more =>
    cases other with
    | argsStop is' => exact absurd (is.symm.trans is') (by decide)
    | argsMore _ n m =>
      obtain ⟨_,rfl⟩ := next n
      exact more m

end Determined
end DevkitCommon.Apidoc.Expressions
