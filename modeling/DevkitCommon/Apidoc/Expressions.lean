import DevkitCommon.Lib.Text
import DevkitCommon.Lib.Words
import Mathlib.Data.Char
import Mathlib.Data.List.Lex
import Mathlib.Data.Rat.Defs
import Mathlib.Algebra.Order.Ring.Rat

/-! The expressions of api.vd as apidoc evaluates them on the zero value: the tokens of a text,
and a reader by levels over them. -/
namespace DevkitCommon.Apidoc.Expressions
open Words

section Tokens

def wordChar (c : Char) : Bool := c == '_' || c == '.' || c.isAlphanum

def isBlank (c : Char) : Bool := c == ' ' || c == '\t'

def isQuote (c : Char) : Bool := c == '\'' || c == '"'

def doubles : List Text := ["&&","||","==","!=","<=",">="].map String.toList

def singles : Text := "!<>()$,-".toList

def literalLength (quote : Char) : Text → Nat
  | [] => 0
  | c::rest =>
    if c = quote then 1
    else if c = '\\' then match rest with
      | [] => 1
      | _::more => literalLength quote more + 2
    else literalLength quote rest + 1

def tokenLength (c : Char) (rest : Text) : Nat :=
  if (c::rest).take 2 ∈ doubles then 2
  else if c ∈ singles then 1
  else if isQuote c then literalLength c rest + 1
  else max 1 ((c::rest).takeWhile wordChar).length

def vdTokens : Nat → Text → List Text
  | _,[] => []
  | skip + 1,_::rest => vdTokens skip rest
  | 0,c::rest =>
    if isBlank c then vdTokens 0 rest else (c::rest).take (tokenLength c rest)::vdTokens (tokenLength c rest - 1) rest

end Tokens
section Values

inductive Val where
  | zero
  | num (n : ℚ)
  | str (s : Text)
  | bool (b : Bool)
  | nil
  deriving DecidableEq

inductive Op where | eq | ne | lt | le | gt | ge
  deriving DecidableEq, Repr

def Op.text : Op → String
  | .eq => "=="
  | .ne => "!="
  | .lt => "<"
  | .le => "<="
  | .gt => ">"
  | .ge => ">="

def Op.all : List Op := [.eq,.ne,.lt,.le,.gt,.ge]

def opOf (t : Text) : Option Op := Op.all.find? (fun op => decide (op.text.toList = t))

def Op.equality : Op → Bool
  | .eq | .ne => true
  | _ => false

def cmpOrdered {T : Type} [LinearOrder T] (a : T) (op : Op) (b : T) : Bool := match op with
  | .eq => decide (a = b)
  | .ne => decide (a ≠ b)
  | .lt => decide (a < b)
  | .le => decide (a ≤ b)
  | .gt => decide (b < a)
  | .ge => decide (b ≤ a)

def zeroAs : Val → Val
  | .str _ => .str []
  | .nil | .zero => .nil
  | .bool _ => .bool false
  | .num _ => .num 0

def compare (l : Val) (op : Op) (r : Val) : Except String Val :=
  let l := if l = .zero then zeroAs r else l
  let r := if r = .zero then zeroAs l else r
  match l,r with
  | .num a,.num b => .ok (.bool (cmpOrdered a op b))
  | .str a,.str b => .ok (.bool (cmpOrdered a op b))
  | .bool a,.bool b =>
    if op.equality then .ok (.bool ((a == b) == (op == .eq))) else .error s!"cannot compare with {op.text}"
  | .nil,.nil => if op.equality then .ok (.bool (op == .eq)) else .error s!"cannot compare with {op.text}"
  | .nil,_ | _,.nil => if op.equality then .ok (.bool (op == .ne)) else .error s!"cannot compare with {op.text}"
  | _,_ => .error s!"cannot compare with {op.text}"

end Values
section Reader

/- A number's double, and whether a pattern matches the empty text; none and an error where
there is none. -/
structure Env where
  parseFloat : Text → Option ℚ
  compile : Text → Except String Bool

inductive Goal where
  | or
  | orRest (l : Val)
  | and
  | andRest (l : Val)
  | not
  | cmp
  | prim
  | args

abbrev Reply := Except String (Val × List Text)

def fail (e : String) : Option Reply := some (.error e)
def done (v : Val) (toks : List Text) : Option Reply := some (.ok (v,toks))

def behind (r : Option Reply) (f : Val → List Text → Option Reply) : Option Reply := match r with
  | some (.ok (v,toks)) => f v toks
  | other => other

def quoted (t : Text) : String := Text.quote (String.ofList t)

def expect (t : String) (toks : List Text) (f : List Text → Option Reply) : Option Reply := match toks with
  | u::rest => if u = t.toList then f rest else fail s!"expected {Text.quote t}"
  | [] => fail s!"expected {Text.quote t}"

def literalLike (t : Text) : Bool := t.head?.any isQuote
def numberLike (t : Text) : Bool := t.head?.any (fun c => c.isDigit || c == '.')

def parse (env : Env) : Nat → Goal → List Text → Option Reply
  | 0,_,_ => none
  | n + 1,.or,toks => behind (parse env n .and toks) fun l toks => parse env n (.orRest l) toks
  | n + 1,.orRest l,toks => match toks with
    | t::rest =>
      if t = "||".toList then behind (parse env n .and rest) fun r toks => match l,r with
        | .bool a,.bool b => parse env n (.orRest (.bool (a || b))) toks
        | _,_ => fail "|| needs conditions"
      else done l (t::rest)
    | [] => done l []
  | n + 1,.and,toks => behind (parse env n .not toks) fun l toks => parse env n (.andRest l) toks
  | n + 1,.andRest l,toks => match toks with
    | t::rest =>
      if t = "&&".toList then behind (parse env n .not rest) fun r toks => match l,r with
        | .bool a,.bool b => parse env n (.andRest (.bool (a && b))) toks
        | _,_ => fail "&& needs conditions"
      else done l (t::rest)
    | [] => done l []
  | n + 1,.not,toks => match toks with
    | t::rest =>
      if t = "!".toList then behind (parse env n .not rest) fun v toks => match v with
        | .bool b => done (.bool (!b)) toks
        | _ => fail "! needs a condition"
      else parse env n .cmp (t::rest)
    | [] => parse env n .cmp []
  | n + 1,.cmp,toks => behind (parse env n .prim toks) fun l toks => match toks with
    | t::rest => match opOf t with
      | some op => behind (parse env n .prim rest) fun r toks => match compare l op r with
        | .ok v => done v toks
        | .error e => fail e
      | none => done l (t::rest)
    | [] => done l []
  | n + 1,.prim,toks => match toks with
    | [] => fail "unexpected end"
    | t::toks =>
      if t = "(".toList then behind (parse env n .or toks) fun v toks => expect ")" toks fun toks => done v toks
      else if t = "$".toList then done .zero toks
      else if t = "nil".toList then done .nil toks
      else if t = "true".toList ∨ t = "false".toList then done (.bool (t = "true".toList)) toks
      else if t = "-".toList then behind (parse env n .prim toks) fun v toks => match v with
        | .num x => done (.num (-x)) toks
        | _ => fail "- needs a number"
      else if literalLike t then
        if t.length < 2 ∨ t.getLast? ≠ t.head? then fail "unterminated string" else done (.str (t.drop 1).dropLast) toks
      else if numberLike t then match env.parseFloat t with
        | some x => done (.num x) toks
        | none => fail s!"bad number {quoted t}"
      else if t = "len".toList ∨ t = "mblen".toList then
        expect "(" toks fun toks => expect "$" toks fun toks => expect ")" toks fun toks => done (.num 0) toks
      else if t = "regexp".toList then
        expect "(" toks fun toks => behind (parse env n .prim toks) fun pat toks => match pat with
          | .str s =>
            let close toks := expect ")" toks fun toks => match env.compile s with
              | .ok passes => done (.bool passes) toks
              | .error e => fail s!"regexp {quoted s}: {e}"
            match toks with
            | u::rest => if u = ",".toList then expect "$" rest close else close (u::rest)
            | [] => close []
          | _ => fail "regexp needs a pattern"
      else if t = "email".toList ∨ t = "phone".toList then
        expect "(" toks fun toks => expect "$" toks fun toks => parse env n .args toks
      else fail s!"unknown {quoted t}"
  | n + 1,.args,toks => match toks with
    | t::rest =>
      if t = ",".toList then behind (parse env n .prim rest) fun _ toks => parse env n .args toks
      else expect ")" (t::rest) fun toks => done (.bool false) toks
    | [] => expect ")" [] fun toks => done (.bool false) toks

/- None where the calls did not suffice. -/
def zeroPasses (env : Env) (expr : Text) : Option (Except String Bool) :=
  let toks := vdTokens 0 expr
  match parse env (8*toks.length + 8) .or toks with
  | none => none
  | some (.error e) => some (.error e)
  | some (.ok (_,t::_)) => some (.error s!"unexpected {quoted t}")
  | some (.ok (.bool b,[])) => some (.ok b)
  | some (.ok (_,[])) => some (.error "expression is not a condition")

end Reader
section Ends
variable {env : Env} {toks rest : List Text} {v : Val}

def Goal.weight : Goal → Nat
  | .or => 7
  | .and => 6
  | .not => 5
  | .cmp => 4
  | .prim => 3
  | .orRest _ | .andRest _ | .args => 2

def Goal.takes : Goal → Nat
  | .orRest _ | .andRest _ => 0
  | _ => 1

def Answers (r : Option Reply) (toks : List Text) (took : Nat) : Prop :=
  ∃ reply, r = some reply ∧ ∀ v rest, reply = .ok (v,rest) → rest.length + took ≤ toks.length

theorem failAnswers (e : String) (took : Nat) : Answers (fail e) toks took :=
  ⟨_,rfl,fun _ _ same => by cases same⟩

theorem doneAnswers {took : Nat} (short : rest.length + took ≤ toks.length) : Answers (done v rest) toks took :=
  ⟨_,rfl,fun _ _ same => by cases same; exact short⟩

theorem behindAnswers {r : Option Reply} {f : Val → List Text → Option Reply} {first took : Nat} {some' : List Text}
    (reads : Answers r some' first) (more : ∀ v rest, rest.length + first ≤ some'.length → Answers (f v rest) toks took) :
    Answers (behind r f) toks took := by
  obtain ⟨reply,rfl,short⟩ := reads
  cases reply with
  | error e => exact ⟨_,rfl,fun _ _ same => by cases same⟩
  | ok p => exact more p.1 p.2 (short p.1 p.2 rfl)

theorem expectAnswers {t : String} {f : List Text → Option Reply} {took : Nat} {some' : List Text}
    (more : ∀ rest, rest.length + 1 ≤ some'.length → Answers (f rest) toks took) : Answers (expect t some' f) toks took := by
  unfold expect
  cases some' with
  | nil => exact failAnswers _ _
  | cons u rest =>
    dsimp only
    split
    · exact more rest (Nat.le_refl _)
    · exact failAnswers _ _

theorem answersMore {r : Option Reply} {took : Nat} {some' : List Text} (reads : Answers r some' took)
    (fewer : some'.length ≤ toks.length) : Answers r toks took := by
  obtain ⟨reply,is,short⟩ := reads
  exact ⟨reply,is,fun v rest same => (short v rest same).trans fewer⟩

theorem iteAnswers {p : Prop} [Decidable p] {r r' : Option Reply} {took : Nat} (yes : p → Answers r toks took)
    (no : ¬ p → Answers r' toks took) : Answers (if p then r else r') toks took := by
  split
  · exact yes (by assumption)
  · exact no (by assumption)

theorem parseAnswers {n : Nat} {g : Goal} (enough : 8*toks.length + g.weight ≤ n) :
    Answers (parse env n g toks) toks g.takes := by
  induction n generalizing g toks with
  | zero => cases g <;> simp only [Goal.weight] at enough <;> omega
  | succ n ih =>
    cases g with
    | or =>
      simp only [Goal.weight] at enough
      refine behindAnswers (ih (g := .and) (by simp only [Goal.weight]; omega)) fun l rest short => ?_
      simp only [Goal.takes] at short
      have enough' : 8*rest.length + (Goal.orRest l).weight ≤ n := by simp only [Goal.weight]; omega
      obtain ⟨reply,is,less⟩ := ih enough'
      simp only [Goal.takes] at less
      exact ⟨reply,is,fun v rest' same => by have := less v rest' same; simp only [Goal.takes]; omega⟩
    | and =>
      simp only [Goal.weight] at enough
      refine behindAnswers (ih (g := .not) (by simp only [Goal.weight]; omega)) fun l rest short => ?_
      simp only [Goal.takes] at short
      have enough' : 8*rest.length + (Goal.andRest l).weight ≤ n := by simp only [Goal.weight]; omega
      obtain ⟨reply,is,less⟩ := ih enough'
      simp only [Goal.takes] at less
      exact ⟨reply,is,fun v rest' same => by have := less v rest' same; simp only [Goal.takes]; omega⟩
    | orRest l =>
      cases toks with
      | nil => exact doneAnswers (Nat.le_refl _)
      | cons t rest =>
        simp only [Goal.weight,List.length_cons] at enough
        rw [parse]
        split
        · refine behindAnswers (ih (g := .and) (by simp only [Goal.weight]; omega)) fun r rest' short => ?_
          simp only [Goal.takes] at short
          split
          · refine answersMore (ih (g := .orRest _) (by simp only [Goal.weight]; omega)) ?_
            simp only [List.length_cons]
            omega
          · exact failAnswers _ _
        · exact doneAnswers (Nat.le_refl _)
    | andRest l =>
      cases toks with
      | nil => exact doneAnswers (Nat.le_refl _)
      | cons t rest =>
        simp only [Goal.weight,List.length_cons] at enough
        rw [parse]
        split
        · refine behindAnswers (ih (g := .not) (by simp only [Goal.weight]; omega)) fun r rest' short => ?_
          simp only [Goal.takes] at short
          split
          · refine answersMore (ih (g := .andRest _) (by simp only [Goal.weight]; omega)) ?_
            simp only [List.length_cons]
            omega
          · exact failAnswers _ _
        · exact doneAnswers (Nat.le_refl _)
    | not =>
      cases toks with
      | nil => exact ih (g := .cmp) (by simp only [Goal.weight] at enough ⊢; omega)
      | cons t rest =>
        simp only [Goal.weight,List.length_cons] at enough
        rw [parse]
        split
        · refine behindAnswers (ih (g := .not) (by simp only [Goal.weight]; omega)) fun v rest' short => ?_
          simp only [Goal.takes] at short
          split
          · exact doneAnswers (by simp only [Goal.takes,List.length_cons]; omega)
          · exact failAnswers _ _
        · exact ih (g := .cmp) (by simp only [Goal.weight,List.length_cons]; omega)
    | cmp =>
      simp only [Goal.weight] at enough
      refine behindAnswers (ih (g := .prim) (by simp only [Goal.weight]; omega)) fun l rest short => ?_
      simp only [Goal.takes] at short
      cases rest with
      | nil => exact doneAnswers short
      | cons t rest =>
        simp only [List.length_cons] at short
        dsimp only
        split
        · refine behindAnswers (ih (g := .prim) (by simp only [Goal.weight]; omega)) fun r rest' less => ?_
          simp only [Goal.takes] at less
          split
          · exact doneAnswers (by simp only [Goal.takes]; omega)
          · exact failAnswers _ _
        · exact doneAnswers short
    | prim =>
      cases toks with
      | nil => exact failAnswers _ _
      | cons t rest =>
        simp only [Goal.weight,List.length_cons] at enough
        have one {v : Val} {rest' : List Text} (short : rest'.length ≤ rest.length) : Answers (done v rest') (t::rest) 1 :=
          doneAnswers (Nat.succ_le_succ short)
        have close {s : Text} {u : List Text} (few : u.length ≤ rest.length) :
            Answers (expect ")" u fun toks => match env.compile s with
              | .ok passes => done (.bool passes) toks
              | .error e => fail s!"regexp {quoted s}: {e}") (t::rest) 1 := by
          refine expectAnswers fun c least => ?_
          split
          · exact one (by omega)
          · exact failAnswers _ _
        rw [parse]
        refine iteAnswers (fun _ => ?paren) fun _ => iteAnswers (fun _ => one (Nat.le_refl _)) fun _ =>
          iteAnswers (fun _ => one (Nat.le_refl _)) fun _ => iteAnswers (fun _ => one (Nat.le_refl _)) fun _ =>
          iteAnswers (fun _ => ?minus) fun _ => iteAnswers (fun _ => ?literal) fun _ => iteAnswers (fun _ => ?number) fun _ =>
          iteAnswers (fun _ => ?len) fun _ => iteAnswers (fun _ => ?regexp) fun _ => iteAnswers (fun _ => ?email) fun _ =>
          failAnswers _ _
        case paren =>
          refine behindAnswers (ih (g := .or) (by simp only [Goal.weight]; omega)) fun v rest' short => ?_
          simp only [Goal.takes] at short
          exact expectAnswers fun last less => one (by omega)
        case minus =>
          refine behindAnswers (ih (g := .prim) (by simp only [Goal.weight]; omega)) fun v rest' short => ?_
          simp only [Goal.takes] at short
          split
          · exact one (by omega)
          · exact failAnswers _ _
        case literal => exact iteAnswers (fun _ => failAnswers _ _) fun _ => one (Nat.le_refl _)
        case number =>
          split
          · exact one (Nat.le_refl _)
          · exact failAnswers _ _
        case len => exact expectAnswers fun a short => expectAnswers fun b less => expectAnswers fun c least => one (by omega)
        case regexp =>
          refine expectAnswers fun a short => ?_
          refine behindAnswers (ih (g := .prim) (by simp only [Goal.weight]; omega)) fun pat b less => ?_
          simp only [Goal.takes] at less
          cases pat with
          | str s =>
            cases b with
            | nil => exact close (Nat.zero_le _)
            | cons u b =>
              simp only [List.length_cons] at less
              refine iteAnswers (fun _ => expectAnswers fun c least => close ?_) fun _ => close ?_
              · omega
              · simp only [List.length_cons]
                omega
          | zero | num | bool | nil => exact failAnswers _ _
        case email =>
          refine expectAnswers fun a short => expectAnswers fun b less => ?_
          have enough' : 8*b.length + Goal.args.weight ≤ n := by simp only [Goal.weight]; omega
          obtain ⟨reply,is,least⟩ := ih enough'
          simp only [Goal.takes] at least
          exact ⟨reply,is,fun v rest' same => by have := least v rest' same; simp only [Goal.takes,List.length_cons]; omega⟩
    | args =>
      cases toks with
      | nil => exact failAnswers _ _
      | cons t rest =>
        simp only [Goal.weight,List.length_cons] at enough
        rw [parse]
        split
        · refine behindAnswers (ih (g := .prim) (by simp only [Goal.weight]; omega)) fun v rest' short => ?_
          simp only [Goal.takes] at short
          refine answersMore (ih (g := .args) (by simp only [Goal.weight]; omega)) ?_
          simp only [List.length_cons]
          omega
        · exact expectAnswers fun a short => doneAnswers short

theorem zeroPassesEnds (env : Env) (expr : Text) : ∃ reply, zeroPasses env expr = some reply := by
  have enough : 8*(vdTokens 0 expr).length + Goal.or.weight ≤ 8*(vdTokens 0 expr).length + 8 := Nat.le_succ _
  obtain ⟨reply,is,_⟩ : Answers (parse env _ .or (vdTokens 0 expr)) _ _ := parseAnswers enough
  unfold zeroPasses
  dsimp only
  rw [is]
  split <;> first | exact ⟨_,rfl⟩ | (rename_i none; cases none)

end Ends
end DevkitCommon.Apidoc.Expressions
