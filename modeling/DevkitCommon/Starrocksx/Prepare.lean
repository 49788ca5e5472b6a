import DevkitCommon.Lib.Words
import Mathlib.Data.List.Basic
import Mathlib.Logic.Nontrivial.Defs

/-! The statement of a report and its :tenant. prepare keeps to its own reading of the text,
quotes and nothing else; what is bound where is up to the database's. -/
namespace DevkitCommon.Starrocksx
open Words

section Source

def isWord (c : Char) : Bool := c == '_' || c.isAlphanum

def isQuote (c : Char) : Bool := c == '\'' || c == '"' || c == '`'

def blank (c : Char) : Bool := c == '\t' || c == '\n' || c.toNat == 12 || c == '\r' || c == ' '

def wordEnds (t : Text) : Bool := match t with
  | [] => true
  | c::_ => !isWord c

def tenantAfter (t : Text) : Bool := "tenant".toList.isPrefixOf t && wordEnds (t.drop 6)

def tenantPH (query : Text) : Bool := query.tails.any (fun t => match t with
  | ':'::rest => tenantAfter rest
  | _ => false)

def verbHere (t : Text) : Bool :=
  (t.take 6).map foldChar == "select".toList && wordEnds (t.drop 6) ||
    (t.take 4).map foldChar == "with".toList && wordEnds (t.drop 4)

/- Where a match of the pattern may stand: between two comments, in a line comment, behind the
slash of another, in it, before its closing slash. -/
inductive Place where | between | line | opened | block | closing

/- (?is)^\s*(?:--[^\n]*\n\s*|/\*.*?\*/\s*)*(select|with)\b: a comment may end at any of the
ends that follow. -/
def leads : Place → Text → Bool
  | _,[] => false
  | .between,c::rest => verbHere (c::rest) || blank c && leads .between rest ||
      c == '-' && rest.head? == some '-' && leads .line rest || c == '/' && rest.head? == some '*' && leads .opened rest
  | .line,c::rest => if c = '\n' then leads .between rest else leads .line rest
  | .opened,_::rest => leads .block rest
  | .block,c::rest => c == '*' && rest.head? == some '/' && leads .closing rest || leads .block rest
  | .closing,_::rest => leads .between rest

def leading (query : Text) : Bool := leads .between query

def ErrNoTenant : String :=
  "starrocksx: the query has no `tenant_id = :tenant`: every report query is filtered by the tenant"

def ErrNotReadOnly : String := "starrocksx: only SELECT (or WITH ... SELECT) runs on the report database"

variable {α : Type}

/- The loop of prepare; skip is what is left of a :tenant. -/
def loop (tenant : α) (args : List α) (inStr : Option Char) (ai : Nat) (sb : Text) (out : List α) :
    Nat → Text → Except String (Text × List α)
  | _,[] =>
    if ai ≠ args.length then .error s!"starrocksx: the query has {ai} ? but {args.length} arguments" else .ok (sb,out)
  | skip + 1,_::rest => loop tenant args inStr ai sb out skip rest
  | 0,ch::rest => match inStr with
    | some quote => loop tenant args (if ch = quote then none else some quote) ai (sb ++ [ch]) out 0 rest
    | none =>
      if isQuote ch then loop tenant args (some ch) ai (sb ++ [ch]) out 0 rest
      else if ch = '?' then match args[ai]? with
        | none => .error s!"starrocksx: the query has more ? than arguments ({args.length})"
        | some arg => loop tenant args none (ai + 1) (sb ++ [ch]) (out ++ [arg]) 0 rest
      else if ch = ':' ∧ tenantAfter rest then loop tenant args none ai (sb ++ ['?']) (out ++ [tenant]) 6 rest
      else loop tenant args none ai (sb ++ [ch]) out 0 rest

def prepare (tenant : α) (query : Text) (args : List α) : Except String (Text × List α) :=
  if !leading query then .error ErrNotReadOnly
  else if !tenantPH query then .error ErrNoTenant
  else loop tenant args none 0 [] [] 0 query

end Source
section Views

/- A text read by a lexer: which of its characters stand outside everything. -/
def view {μ : Type} (live : μ → Bool) (next : μ → Char → Text → μ) : μ → Text → List (Char × Bool)
  | _,[] => []
  | m,c::rest => (c,live m)::view live next (next m c rest) rest

def scans (inStr : Option Char) (c : Char) (_ : Text) : Option Char := match inStr with
  | some quote => if c = quote then none else some quote
  | none => if isQuote c then some c else none

def scanned (query : Text) : List (Char × Bool) := view Option.isNone scans none query

/- How MySQL reads it. A doubled quote ends one literal and begins another. -/
inductive Mode where
  | plain
  | quoted (quote : Char)
  | escaped (quote : Char)
  | line
  | opened
  | block
  | closing
  deriving DecidableEq

def Mode.live : Mode → Bool
  | .plain => true
  | _ => false

/- A comment of two dashes has a space or a control character behind them. -/
def dashes (t : Text) : Bool := match t with
  | '-'::[] => true
  | '-'::c::_ => decide (c.toNat ≤ 32) || c.toNat == 127
  | _ => false

def Mode.next (m : Mode) (c : Char) (rest : Text) : Mode := match m with
  | .plain =>
    if isQuote c then .quoted c
    else if c = '#' ∨ c = '-' ∧ dashes rest then .line
    else if c = '/' ∧ rest.head? = some '*' then .opened
    else .plain
  | .quoted quote => if c = '\\' ∧ quote ≠ '`' then .escaped quote else if c = quote then .plain else .quoted quote
  | .escaped quote => .quoted quote
  | .line => if c = '\n' then .plain else .line
  | .opened => .block
  | .block => if c = '*' ∧ rest.head? = some '/' then .closing else .block
  | .closing => .plain

def lexed (query : Text) : List (Char × Bool) := view Mode.live Mode.next .plain query

inductive Piece where
  | char (c : Char)
  | tenant
  | arg
  deriving DecidableEq

def pieces : Nat → List (Char × Bool) → List Piece
  | _,[] => []
  | skip + 1,_::rest => pieces skip rest
  | 0,(c,live)::rest =>
    if live ∧ c = '?' then .arg::pieces 0 rest
    else if live ∧ c = ':' ∧ tenantAfter (rest.map Prod.fst) then .tenant::pieces 6 rest
    else .char c::pieces 0 rest

def Piece.text : Piece → Char
  | .char c => c
  | .tenant | .arg => '?'

def textOf (ps : List Piece) : Text := ps.map Piece.text

def bind (tenant : α) : List Piece → List α → Option (List α)
  | [],[] => some []
  | [],_::_ => none
  | .char _::ps,args => bind tenant ps args
  | .tenant::ps,args => (bind tenant ps args).map (tenant::·)
  | .arg::_,[] => none
  | .arg::ps,a::args => (bind tenant ps args).map (a::·)

def nameChar (c : Char) : Bool := isWord c || c == '$' || decide (128 ≤ c.toNat)

def outerWords (depth : Nat) (cur : Text) : List (Char × Bool) → List Text
  | [] => if depth = 0 ∧ cur ≠ [] then [cur] else []
  | (c,live)::rest =>
    if live ∧ nameChar c then outerWords depth (cur ++ [c.toLower]) rest
    else
      let depth' := if live ∧ c = '(' then depth + 1 else if live ∧ c = ')' then depth - 1 else depth
      (if depth = 0 ∧ cur ≠ [] then [cur] else []) ++ outerWords depth' [] rest

def verbs : List Text := ["select","insert","update","delete","replace"].map String.toList

/- The verb of a statement, of one that begins with WITH that of its body. A body in parentheses
is a query. -/
def mainVerb (query : Text) : Option Text := match outerWords 0 [] (lexed query) with
  | [] => none
  | w::rest => if w = "with".toList then some ((rest.find? (fun v => decide (v ∈ verbs))).getD "select".toList) else some w

end Views
section Claim
variable {α : Type} {tenant : α} {args out more : List α} {query t sql sb : Text} {inStr : Option Char} {ai skip n : Nat}
  {ps : List Piece}

structure Binds (tenant : α) (query : Text) (args : List α) (sql : Text) (out : List α) : Prop where
  verb : mainVerb query = some "select".toList
  filtered : Piece.tenant ∈ pieces 0 (lexed query)
  text : sql = textOf (pieces 0 (lexed query))
  bound : bind tenant (pieces 0 (lexed query)) args = some out

def Piece.kind : Piece → Option Bool
  | .char _ => none
  | .tenant => some true
  | .arg => some false

def kinds (ps : List Piece) : List Bool := ps.filterMap Piece.kind

def tenantPlaces (i : Nat) : Nat → List (Char × Bool) → List Nat
  | _,[] => []
  | skip + 1,_::rest => tenantPlaces (i + 1) skip rest
  | 0,(c,live)::rest =>
    if live ∧ c = ':' ∧ tenantAfter (rest.map Prod.fst) then i::tenantPlaces (i + 1) 6 rest
    else tenantPlaces (i + 1) 0 rest

structure SameView (query : Text) : Prop where
  tenants : tenantPlaces 0 0 (scanned query) = tenantPlaces 0 0 (lexed query)
  order : kinds (pieces 0 (scanned query)) = kinds (pieces 0 (lexed query))

/- Nothing of the kind is run: not a query by its first word, no :tenant in its text, or not as
many ? as there are arguments, by the scanner's count. -/
def Refused (query : Text) (n : Nat) : Prop :=
  leading query = false ∨ tenantPH query = false ∨ (kinds (pieces 0 (scanned query))).count false ≠ n

section Scan

theorem viewChars {μ : Type} (live : μ → Bool) (next : μ → Char → Text → μ) (m : μ) (t : Text) :
    (view live next m t).map Prod.fst = t := by
  induction t generalizing m with
  | nil => rfl
  | cons c rest ih => rw [view,List.map_cons,ih]

theorem tenantUnquoted (after : tenantAfter t = true) : ∀ c ∈ t.take 6, isQuote c = false := by
  have front : "tenant".toList <+: t := by
    rw [tenantAfter,Bool.and_eq_true] at after
    exact List.isPrefixOf_iff_prefix.mp after.1
  obtain ⟨rest,rfl⟩ := front
  have six : ("tenant".toList ++ rest).take 6 = "tenant".toList := rfl
  rw [six]
  have plain : ("tenant".toList.all fun c => !isQuote c) = true := by decide +kernel
  exact fun c mem => by simpa using List.all_eq_true.mp plain c mem

theorem loopRuns {o : List α} (few : ai ≤ args.length)
    (clean : skip ≠ 0 → inStr = none ∧ ∀ c ∈ t.take skip, isQuote c = false) :
    loop tenant args inStr ai sb out skip t = .ok (sql,o) ↔
      ∃ more, bind tenant (pieces skip (view Option.isNone scans inStr t)) (args.drop ai) = some more ∧
        sql = sb ++ textOf (pieces skip (view Option.isNone scans inStr t)) ∧ o = out ++ more := by
  induction t generalizing inStr ai sb out skip with
  | nil =>
    rw [loop.eq_def,view,pieces.eq_def]
    dsimp only
    split
    · rename_i other
      have left : ai < args.length := Nat.lt_of_le_of_ne few other
      rw [List.drop_eq_getElem_cons left]
      refine iff_of_false (fun none => by cases none) ?_
      rintro ⟨_,none,_⟩
      cases none
    · rename_i same
      rw [not_not] at same
      rw [List.drop_eq_nil_of_le same.ge]
      constructor
      · rintro ⟨⟩
        exact ⟨[],rfl,(List.append_nil _).symm,(List.append_nil _).symm⟩
      · rintro ⟨more,same',rfl,rfl⟩
        cases Option.some.inj same'
        simp only [textOf,List.map_nil,List.append_nil]
  | cons c rest ih =>
    cases skip with
    | succ skip =>
      obtain ⟨rfl,unquoted⟩ := clean (Nat.succ_ne_zero skip)
      have plain : isQuote c = false := unquoted c List.mem_cons_self
      have still : scans none c rest = none := by
        rw [scans]
        exact if_neg (Bool.eq_false_iff.mp plain)
      rw [loop,view,pieces,still]
      exact ih few (fun _ => ⟨rfl,fun d mem => unquoted d (List.mem_cons_of_mem _ mem)⟩)
    | zero =>
      have next (inStr' : Option Char) (d : Char) {ai' : Nat} {out' : List α} (few' : ai' ≤ args.length) :
          loop tenant args inStr' ai' (sb ++ [d]) out' 0 rest = .ok (sql,o) ↔
            ∃ more, bind tenant (pieces 0 (view Option.isNone scans inStr' rest)) (args.drop ai') = some more ∧
              sql = sb ++ d::textOf (pieces 0 (view Option.isNone scans inStr' rest)) ∧ o = out' ++ more := by
        rw [ih few' (fun other => absurd rfl other)]
        simp only [List.append_assoc,List.singleton_append]
      have chars := viewChars Option.isNone scans (scans inStr c rest) rest
      cases inStr with
      | some quote =>
        have cut : pieces 0 (view Option.isNone scans (some quote) (c::rest)) =
            .char c::pieces 0 (view Option.isNone scans (if c = quote then none else some quote) rest) := by
          rw [view,pieces,if_neg (fun both => Bool.false_ne_true both.1),if_neg (fun both => Bool.false_ne_true both.1)]
          rfl
        rw [loop,cut]
        exact next _ c few
      | none =>
        have still (plain : isQuote c = false) : scans none c rest = none := by
          rw [scans]
          exact if_neg (Bool.eq_false_iff.mp plain)
        rw [loop,view,pieces,chars]
        cases quote : isQuote c with
        | true =>
          have ask : c ≠ '?' := fun same => by rw [same] at quote; cases quote
          have colon : c ≠ ':' := fun same => by rw [same] at quote; cases quote
          have opens : scans none c rest = some c := by
            rw [scans]
            exact if_pos quote
          rw [if_pos rfl,if_neg (fun both => ask both.2),if_neg (fun both => colon both.2.1),opens]
          exact next _ c few
        | false =>
          rw [if_neg Bool.false_ne_true,still quote]
          by_cases ask : c = '?'
          · rw [if_pos ask,if_pos ⟨rfl,ask⟩]
            cases found : args[ai]? with
            | none =>
              rw [List.drop_eq_nil_of_le (List.getElem?_eq_none_iff.mp found)]
              refine iff_of_false (fun none => by cases none) ?_
              rintro ⟨_,none,_⟩
              cases none
            | some arg =>
              obtain ⟨short,here⟩ := List.getElem?_eq_some_iff.mp found
              rw [List.drop_eq_getElem_cons short,here]
              refine (next none c (Nat.succ_le_of_lt short)).trans ?_
              subst ask
              constructor
              · rintro ⟨more,bound,text,rfl⟩
                exact ⟨arg::more,by rw [bind,bound]; rfl,text,by rw [List.append_assoc]; rfl⟩
              · rintro ⟨more,bound,text,rfl⟩
                rw [bind] at bound
                obtain ⟨tail,bound',rfl⟩ := Option.map_eq_some_iff.mp bound
                exact ⟨tail,bound',text,by rw [List.append_assoc]; rfl⟩
          · have asked : ¬ ((none : Option Char).isNone = true ∧ c = '?') := fun both => ask both.2
            rw [if_neg ask,if_neg asked]
            by_cases here : c = ':' ∧ tenantAfter rest = true
            · rw [if_pos here,if_pos ⟨rfl,here⟩]
              refine (ih few (fun _ => ⟨rfl,tenantUnquoted here.2⟩)).trans ?_
              constructor
              · rintro ⟨more,bound,rfl,rfl⟩
                exact ⟨tenant::more,by rw [bind,bound]; rfl,by rw [List.append_assoc]; rfl,by rw [List.append_assoc]; rfl⟩
              · rintro ⟨more,bound,rfl,rfl⟩
                rw [bind] at bound
                obtain ⟨tail,bound',rfl⟩ := Option.map_eq_some_iff.mp bound
                exact ⟨tail,bound',by rw [List.append_assoc]; rfl,by rw [List.append_assoc]; rfl⟩
            · have colon : ¬ ((none : Option Char).isNone = true ∧ c = ':' ∧ tenantAfter rest = true) := fun both => here both.2
              rw [if_neg here,if_neg colon]
              exact next _ c few

end Scan
section Bind

theorem kindsCons (p : Piece) (ps : List Piece) : kinds (p::ps) = p.kind.toList ++ kinds ps := by
  rw [kinds,List.filterMap_cons]
  cases p.kind <;> rfl

/- The same by the kinds of the placeholders alone. -/
def fill (tenant : α) : List Bool → List α → Option (List α)
  | [],[] => some []
  | [],_::_ => none
  | true::ks,args => (fill tenant ks args).map (tenant::·)
  | false::_,[] => none
  | false::ks,a::args => (fill tenant ks args).map (a::·)

theorem bindFill : bind tenant ps args = fill tenant (kinds ps) args := by
  induction ps generalizing args with
  | nil => cases args <;> rfl
  | cons p ps ih =>
    rw [kindsCons]
    cases p with
    | char c => exact ih
    | tenant => exact congrArg (Option.map (tenant::·)) ih
    | arg => cases args with
      | nil => rfl
      | cons a args => exact congrArg (Option.map (a::·)) ih

theorem fillSome {ks : List Bool} : (∃ out, fill tenant ks args = some out) ↔ ks.count false = args.length := by
  fun_induction fill tenant ks args with
  | case1 => exact iff_of_true ⟨[],rfl⟩ rfl
  | case2 a args =>
    refine iff_of_false ?_ (fun same => by cases same)
    rintro ⟨out,none⟩
    cases none
  | case3 ks args ih =>
    have same : (true::ks).count false = ks.count false := List.count_cons_of_ne (by decide)
    rw [same,← ih]
    constructor
    · rintro ⟨out,filled⟩
      obtain ⟨tail,filled',_⟩ := Option.map_eq_some_iff.mp filled
      exact ⟨tail,filled'⟩
    · rintro ⟨tail,filled⟩
      exact ⟨tenant::tail,by rw [filled]; rfl⟩
  | case4 ks =>
    have more : (false::ks).count false = ks.count false + 1 := List.count_cons_self
    refine iff_of_false ?_ (fun same => by cases more.symm.trans same)
    rintro ⟨out,none⟩
    cases none
  | case5 ks a args ih =>
    have more : (false::ks).count false = ks.count false + 1 := List.count_cons_self
    rw [more,List.length_cons,Nat.add_right_cancel_iff,← ih]
    constructor
    · rintro ⟨out,filled⟩
      obtain ⟨tail,filled',_⟩ := Option.map_eq_some_iff.mp filled
      exact ⟨tail,filled'⟩
    · rintro ⟨tail,filled⟩
      exact ⟨a::tail,by rw [filled]; rfl⟩

theorem fillKinds {ks : List Bool} {b : α} (filled : fill tenant ks args = some out) (all : ∀ a ∈ args, a = b) :
    out = ks.map (fun k => if k then tenant else b) := by
  induction ks generalizing args out with
  | nil =>
    cases args with
    | nil =>
      cases Option.some.inj filled
      rfl
    | cons a args => cases filled
  | cons k ks ih =>
    cases k with
    | true =>
      obtain ⟨tail,filled',rfl⟩ := Option.map_eq_some_iff.mp filled
      exact congrArg (tenant::·) (ih filled' all)
    | false =>
      cases args with
      | nil => cases filled
      | cons a args =>
        obtain ⟨tail,filled',rfl⟩ := Option.map_eq_some_iff.mp filled
        have rest := ih filled' (fun x mem => all x (List.mem_cons_of_mem _ mem))
        rw [all a List.mem_cons_self,rest]
        rfl

end Bind
section Texts
variable {F G : List (Char × Bool)} {i : Nat}

theorem placesAbove : ∀ j ∈ tenantPlaces i skip F, i ≤ j := by
  induction F generalizing i skip with
  | nil =>
    intro j mem
    rw [tenantPlaces.eq_def] at mem
    cases mem
  | cons e rest ih =>
    obtain ⟨c,live⟩ := e
    intro j mem
    cases skip with
    | succ skip => exact Nat.le_of_succ_le (ih j mem)
    | zero =>
      rw [tenantPlaces] at mem
      split at mem
      · obtain rfl | mem := List.mem_cons.mp mem
        · exact Nat.le_refl _
        · exact Nat.le_of_succ_le (ih j mem)
      · exact Nat.le_of_succ_le (ih j mem)

theorem piecesCut (i : Nat) (c : Char) (live : Bool) (rest : List (Char × Bool)) :
    (live = true ∧ c = ':' ∧ tenantAfter (rest.map Prod.fst) = true) ∧
        textOf (pieces 0 ((c,live)::rest)) = '?'::textOf (pieces 6 rest) ∧
        tenantPlaces i 0 ((c,live)::rest) = i::tenantPlaces (i + 1) 6 rest ∨
      ¬ (live = true ∧ c = ':' ∧ tenantAfter (rest.map Prod.fst) = true) ∧
        textOf (pieces 0 ((c,live)::rest)) = c::textOf (pieces 0 rest) ∧
        tenantPlaces i 0 ((c,live)::rest) = tenantPlaces (i + 1) 0 rest := by
  rw [pieces,tenantPlaces]
  by_cases here : live = true ∧ c = ':' ∧ tenantAfter (rest.map Prod.fst) = true
  · have ask : ¬ (live = true ∧ c = '?') := fun both => by cases here.2.1.symm.trans both.2
    rw [if_neg ask,if_pos here,if_pos here]
    exact .inl ⟨here,rfl,rfl⟩
  · rw [if_neg here,if_neg here]
    refine .inr ⟨here,?_,rfl⟩
    split
    · rename_i ask
      rw [ask.2]
      rfl
    · rfl

theorem textPlaces (chars : F.map Prod.fst = G.map Prod.fst) :
    textOf (pieces skip F) = textOf (pieces skip G) ↔ tenantPlaces i skip F = tenantPlaces i skip G := by
  induction F generalizing G skip i with
  | nil =>
    cases List.map_eq_nil_iff.mp chars.symm
    exact iff_of_true rfl rfl
  | cons e rest ih =>
    cases G with
    | nil => cases chars
    | cons e' rest' =>
      obtain ⟨c,live⟩ := e
      obtain ⟨d,live'⟩ := e'
      obtain ⟨rfl,tail⟩ : c = d ∧ rest.map Prod.fst = rest'.map Prod.fst := List.cons.inj chars
      cases skip with
      | succ skip => exact ih tail
      | zero =>
        have above {H : List (Char × Bool)} : ∀ j ∈ tenantPlaces (i + 1) 0 H, j ≠ i := by
          intro j mem same
          have later := placesAbove j mem
          omega
        obtain ⟨here,text,places⟩ | ⟨here,text,places⟩ := piecesCut i c live rest <;>
          obtain ⟨here',text',places'⟩ | ⟨here',text',places'⟩ :=
            piecesCut i c live' rest' <;>
          rw [text,text',places,places']
        · rw [List.cons_inj_right,List.cons_inj_right]
          exact ih tail
        · refine iff_of_false (fun same => ?_) (fun same => ?_)
          · cases here.2.1.symm.trans (List.cons.inj same).1.symm
          · exact above i (same ▸ List.mem_cons_self) rfl
        · refine iff_of_false (fun same => ?_) (fun same => ?_)
          · cases here'.2.1.symm.trans (List.cons.inj same).1
          · exact above i (same.symm ▸ List.mem_cons_self) rfl
        · rw [List.cons_inj_right]
          exact ih tail

end Texts
section Prepare

theorem prepareRuns : prepare tenant query args = .ok (sql,out) ↔ leading query = true ∧ tenantPH query = true ∧
    sql = textOf (pieces 0 (scanned query)) ∧ bind tenant (pieces 0 (scanned query)) args = some out := by
  rw [prepare]
  cases verb : leading query with
  | false => exact iff_of_false (fun none => by cases none) (fun both => Bool.false_ne_true both.1)
  | true =>
    cases named : tenantPH query with
    | false => exact iff_of_false (fun none => by cases none) (fun both => Bool.false_ne_true both.2.1)
    | true =>
      have runs : loop tenant args none 0 [] [] 0 query = .ok (sql,out) ↔ _ := loopRuns (Nat.zero_le _) (fun other => absurd rfl other)
      refine runs.trans ?_
      constructor
      · rintro ⟨more,bound,text,rfl⟩
        exact ⟨rfl,rfl,text,bound⟩
      · rintro ⟨_,_,text,bound⟩
        exact ⟨out,bound,text,rfl⟩

theorem refusedFails (refused : Refused query args.length) : prepare tenant query args ≠ .ok (sql,out) := by
  intro ok
  obtain ⟨verb,named,_,bound⟩ := prepareRuns.mp ok
  rw [bindFill] at bound
  obtain none | none | other := refused
  · exact Bool.false_ne_true (none.symm.trans verb)
  · exact Bool.false_ne_true (none.symm.trans named)
  · exact other (fillSome.mp ⟨out,bound⟩)

theorem sameChars (query : Text) : (scanned query).map Prod.fst = (lexed query).map Prod.fst :=
  (viewChars _ _ none query).trans (viewChars _ _ Mode.plain query).symm

theorem seenBinds (verb : mainVerb query = some "select".toList) (filtered : Piece.tenant ∈ pieces 0 (lexed query))
    (same : SameView query) (ok : prepare tenant query args = .ok (sql,out)) : Binds tenant query args sql out := by
  obtain ⟨_,_,text,bound⟩ := prepareRuns.mp ok
  refine ⟨verb,filtered,text.trans ((textPlaces (i := 0) (sameChars query)).mpr same.tenants),?_⟩
  rw [bindFill,← same.order,← bindFill]
  exact bound

theorem tenantBound [Nontrivial α] (query : Text) (n : Nat) :
    (∀ (tenant : α) (args : List α), args.length = n → ∀ sql out, prepare tenant query args = .ok (sql,out) →
      Binds tenant query args sql out) ↔
    Refused query n ∨
      mainVerb query = some "select".toList ∧ Piece.tenant ∈ pieces 0 (lexed query) ∧ SameView query := by
  constructor
  · intro binds
    refine or_iff_not_imp_left.mpr fun runs => ?_
    rw [Refused,not_or,not_or,Bool.not_eq_false,Bool.not_eq_false,not_not] at runs
    obtain ⟨verb,named,count⟩ := runs
    obtain ⟨a,b,other⟩ := exists_pair_ne α
    have long : (List.replicate n b).length = n := List.length_replicate
    obtain ⟨out,filled⟩ : ∃ out, fill a (kinds (pieces 0 (scanned query))) (List.replicate n b) = some out :=
      fillSome.mpr (count.trans long.symm)
    have bound : bind a (pieces 0 (scanned query)) (List.replicate n b) = some out := bindFill.trans filled
    obtain ⟨verb',filtered,text,bound'⟩ := binds a _ long _ out (prepareRuns.mpr ⟨verb,named,rfl,bound⟩)
    refine ⟨verb',filtered,(textPlaces (sameChars query)).mp text,?_⟩
    rw [bindFill] at bound'
    have all : ∀ x ∈ List.replicate n b, x = b := fun x mem => List.eq_of_mem_replicate mem
    have same := (fillKinds filled all).symm.trans (fillKinds bound' all)
    refine (List.map_injective_iff.mpr fun k m equal => ?_) same
    cases k <;> cases m <;> first | rfl | exact absurd equal other | exact absurd equal other.symm
  · rintro holds tenant args rfl sql out ok
    obtain refused | ⟨verb,filtered,same⟩ := holds
    · exact absurd ok (refusedFails refused)
    · exact seenBinds verb filtered same ok

end Prepare
section Calm
variable {m : Mode} {c : Char} {rest front word : Text}

def Mode.openQuote : Mode → Option Char
  | .quoted quote | .escaped quote => some quote
  | .plain | .line | .opened | .block | .closing => none

def Mode.calm (m : Mode) (c : Char) (rest : Text) : Bool := match m with
  | .plain | .quoted _ => true
  | .escaped quote => c != quote
  | .line | .opened | .block | .closing => !isQuote c && c != '?' && !(c == ':' && tenantAfter rest)

def calm : Mode → Text → Bool
  | _,[] => true
  | m,c::rest => m.calm c rest && calm (m.next c rest) rest

theorem inStrQuote (quotes : ∀ q, m.openQuote = some q → isQuote q = true) :
    ∀ q, (m.next c rest).openQuote = some q → isQuote q = true := by
  intro q opened
  cases m with
  | plain =>
    rw [Mode.next] at opened
    split at opened
    · rename_i quote
      cases opened
      exact quote
    split at opened
    · cases opened
    split at opened <;> cases opened
  | quoted quote =>
    rw [Mode.next] at opened
    split at opened
    · exact quotes q opened
    split at opened
    · cases opened
    · exact quotes q opened
  | escaped quote => exact quotes q opened
  | line | block =>
    rw [Mode.next] at opened
    split at opened <;> cases opened
  | opened | closing => cases opened

theorem scansCalm (quotes : ∀ q, m.openQuote = some q → isQuote q = true) (safe : m.calm c rest = true) :
    scans m.openQuote c rest = (m.next c rest).openQuote := by
  have comment (closed : m.openQuote = none) (plain : isQuote c = false) : scans m.openQuote c rest = none := by
    rw [closed,scans]
    exact if_neg (Bool.eq_false_iff.mp plain)
  cases m with
  | plain =>
    rw [Mode.next,Mode.openQuote,scans]
    cases isQuote c with
    | true => rfl
    | false =>
      rw [if_neg Bool.false_ne_true,if_neg Bool.false_ne_true]
      split
      · rfl
      split <;> rfl
  | quoted quote =>
    have other : quote ≠ '\\' := by
      rintro rfl
      exact absurd (quotes _ rfl) (by decide)
    rw [Mode.next,Mode.openQuote,scans]
    split
    · rename_i closes
      rw [if_neg (fun both => other (closes.symm.trans both.1))]
      rfl
    · split <;> rfl
  | escaped quote =>
    have stays : c ≠ quote := by simpa [Mode.calm] using safe
    exact if_neg stays
  | line | block =>
    have plain : isQuote c = false := by
      simp only [Mode.calm,Bool.and_eq_true,Bool.not_eq_true'] at safe
      exact safe.1.1
    rw [comment rfl plain,Mode.next]
    split <;> rfl
  | opened | closing =>
    have plain : isQuote c = false := by
      simp only [Mode.calm,Bool.and_eq_true,Bool.not_eq_true'] at safe
      exact safe.1.1
    exact comment rfl plain

theorem liveCalm (safe : m.calm c rest = true) : m.openQuote.isNone = m.live ∨
    c ≠ '?' ∧ ¬ (c = ':' ∧ tenantAfter rest = true) := by
  cases m with
  | plain | quoted | escaped => exact .inl rfl
  | line | opened | block | closing =>
    simp only [Mode.calm,Bool.and_eq_true,Bool.not_eq_true',bne_iff_ne,ne_eq,Bool.and_eq_false_iff,beq_eq_false_iff_ne] at safe
    refine .inr ⟨safe.1.2,fun both => ?_⟩
    obtain other | other := safe.2
    · exact other both.1
    · exact Bool.false_ne_true (other.symm.trans both.2)

theorem placesCalm (quotes : ∀ q, m.openQuote = some q → isQuote q = true) (safe : calm m t = true) (skip i : Nat) :
    tenantPlaces i skip (view Option.isNone scans m.openQuote t) = tenantPlaces i skip (view Mode.live Mode.next m t) ∧
      kinds (pieces skip (view Option.isNone scans m.openQuote t)) = kinds (pieces skip (view Mode.live Mode.next m t)) := by
  induction t generalizing m skip i with
  | nil => exact ⟨rfl,rfl⟩
  | cons c rest ih =>
    rw [calm,Bool.and_eq_true] at safe
    have tail := ih (inStrQuote quotes) safe.2
    have chars := viewChars Mode.live Mode.next (m.next c rest) rest
    have chars' := viewChars Option.isNone scans (m.next c rest).openQuote rest
    rw [view,view,scansCalm quotes safe.1]
    cases skip with
    | succ skip => exact tail skip (i + 1)
    | zero =>
      rw [tenantPlaces,tenantPlaces,pieces,pieces,chars,chars']
      obtain lives | ⟨ask,colon⟩ := liveCalm safe.1
      · rw [lives]
        refine ⟨?_,?_⟩
        · split
          · exact congrArg (i::·) (tail 6 (i + 1)).1
          · exact (tail 0 (i + 1)).1
        · split
          · exact congrArg (false::·) (tail 0 i).2
          split
          · exact congrArg (true::·) (tail 6 i).2
          · exact (tail 0 i).2
      · have asked (live : Bool) : ¬ (live = true ∧ c = '?') := fun both => ask both.2
        have named (live : Bool) : ¬ (live = true ∧ c = ':' ∧ tenantAfter rest = true) := fun both => colon both.2
        rw [if_neg (named _),if_neg (named _),if_neg (asked _),if_neg (named _),if_neg (asked _),if_neg (named _)]
        exact ⟨(tail 0 (i + 1)).1,(tail 0 i).2⟩

theorem calmView (safe : calm .plain query = true) : SameView query :=
  have closed : ∀ q, Mode.plain.openQuote = some q → isQuote q = true := fun q opened => by cases opened
  ⟨(placesCalm closed safe 0 0).1,(placesCalm closed safe 0 0).2⟩

def quiet (c : Char) : Bool := !isQuote c && c != '#' && c != '-' && c != '/'

theorem viewQuiet (plain : ∀ c ∈ front, quiet c = true) :
    view Mode.live Mode.next .plain (front ++ t) = front.map (·,true) ++ view Mode.live Mode.next .plain t := by
  induction front with
  | nil => rfl
  | cons c front ih =>
    have here := plain c List.mem_cons_self
    simp only [quiet,Bool.and_eq_true,Bool.not_eq_true',bne_iff_ne,ne_eq] at here
    obtain ⟨⟨⟨quote,hash⟩,dash⟩,slash⟩ := here
    have stays : Mode.next .plain c (front ++ t) = .plain := by
      rw [Mode.next,if_neg (Bool.eq_false_iff.mp quote),if_neg (not_or_intro hash (fun both => dash both.1)),
        if_neg (fun both => slash both.1)]
    rw [List.cons_append,view,stays,ih (fun d mem => plain d (List.mem_cons_of_mem _ mem))]
    rfl

theorem outerBlanks {F : List (Char × Bool)} (blanks : ∀ c ∈ front, blank c = true) :
    outerWords 0 [] (front.map (·,true) ++ F) = outerWords 0 [] F := by
  have other : ∀ n < 128, blank (Char.ofNat n) = true →
      nameChar (Char.ofNat n) = false ∧ Char.ofNat n ≠ '(' ∧ Char.ofNat n ≠ ')' := by decide +kernel
  induction front with
  | nil => rfl
  | cons c front ih =>
    have here := blanks c List.mem_cons_self
    have small : c.toNat < 128 := by
      simp only [blank,Bool.or_eq_true,beq_iff_eq] at here
      obtain (((rfl | rfl) | twelve) | rfl) | rfl := here
      all_goals first | decide | omega
    obtain ⟨name,left,right⟩ := forASCII (p := fun c => blank c = true → nameChar c = false ∧ c ≠ '(' ∧ c ≠ ')') other small here
    rw [List.map_cons,List.cons_append,outerWords,if_neg (fun both => Bool.false_ne_true (name.symm.trans both.2)),
      if_neg (fun both => left both.2),if_neg (fun both => right both.2),if_neg (fun both => both.2 rfl)]
    exact ih (fun d mem => blanks d (List.mem_cons_of_mem _ mem))

theorem outerName {F : List (Char × Bool)} {depth : Nat} {cur : Text} (names : ∀ c ∈ word, nameChar c = true) :
    outerWords depth cur (word.map (·,true) ++ F) = outerWords depth (cur ++ word.map Char.toLower) F := by
  induction word generalizing cur with
  | nil => rw [List.map_nil,List.map_nil,List.nil_append,List.append_nil]
  | cons c word ih =>
    rw [List.map_cons,List.cons_append,outerWords,if_pos ⟨rfl,names c List.mem_cons_self⟩,
      ih (fun d mem => names d (List.mem_cons_of_mem _ mem)),List.map_cons,List.append_assoc,List.singleton_append]

theorem selectLetter (inside : c.toLower ∈ "select".toList) : quiet c = true ∧ nameChar c = true := by
  by_cases ascii : c.toNat < 128
  · have all : ∀ n < 128, (Char.ofNat n).toLower ∈ "select".toList →
        quiet (Char.ofNat n) = true ∧ nameChar (Char.ofNat n) = true := by decide +kernel
    exact forASCII (p := fun c => c.toLower ∈ "select".toList → quiet c = true ∧ nameChar c = true) all ascii inside
  · have large : ¬ (c.val ≥ 'A'.val ∧ c.val ≤ 'Z'.val) := fun both => ascii (by
      have := UInt32.le_iff_toNat_le.mp both.2
      have z : ('Z'.val).toNat = 90 := by decide
      have same : c.val.toNat = c.toNat := rfl
      omega)
    have same : c.toLower = c := dif_neg large
    have letters : "select".toList.all (fun d => quiet d && nameChar d) = true := by decide
    exact (Bool.and_eq_true _ _).mp (List.all_eq_true.mp letters c (same ▸ inside))

theorem selectVerb (blanks : ∀ c ∈ front, blank c = true) (is : word.map Char.toLower = "select".toList)
    (ends : ∀ c, rest.head? = some c → nameChar c = false) : mainVerb (front ++ (word ++ rest)) = some "select".toList := by
  have letters : ∀ c ∈ word, quiet c = true ∧ nameChar c = true := fun c mem =>
    selectLetter (is ▸ List.mem_map_of_mem mem)
  have spaces : ∀ c ∈ front, quiet c = true := by
    intro c mem
    have here := blanks c mem
    simp only [blank,Bool.or_eq_true,beq_iff_eq] at here
    obtain (((rfl | rfl) | twelve) | rfl) | rfl := here
    · decide
    · decide
    · rw [← Char.ofNat_toNat c,twelve]
      decide
    · decide
    · decide
  have words : ∃ more, outerWords 0 "select".toList (view Mode.live Mode.next .plain rest) = "select".toList::more := by
    cases rest with
    | nil => exact ⟨[],rfl⟩
    | cons d rest =>
      have name := ends d rfl
      rw [view,outerWords,if_neg (fun both => Bool.false_ne_true (name.symm.trans both.2))]
      exact ⟨_,rfl⟩
  obtain ⟨more,words⟩ := words
  have outer : outerWords 0 [] (lexed (front ++ (word ++ rest))) = "select".toList::more := by
    rw [lexed,viewQuiet spaces,viewQuiet (fun c mem => (letters c mem).1),outerBlanks blanks,
      outerName (fun c mem => (letters c mem).2),is]
    exact words
  rw [mainVerb,outer]
  exact if_neg (by decide)

theorem tenantKind : Piece.tenant ∈ ps ↔ true ∈ kinds ps := by
  induction ps with
  | nil => exact iff_of_false List.not_mem_nil List.not_mem_nil
  | cons p ps ih =>
    rw [kindsCons]
    cases p with
    | tenant => exact iff_of_true List.mem_cons_self List.mem_cons_self
    | char | arg => simpa [Piece.kind] using ih

theorem calmBound (safe : calm .plain (front ++ (word ++ rest)) = true) (blanks : ∀ c ∈ front, blank c = true)
    (is : word.map Char.toLower = "select".toList) (ends : ∀ c, rest.head? = some c → nameChar c = false)
    (filtered : Piece.tenant ∈ pieces 0 (scanned (front ++ (word ++ rest))))
    (ok : prepare tenant (front ++ (word ++ rest)) args = .ok (sql,out)) :
    Binds tenant (front ++ (word ++ rest)) args sql out := by
  have same := calmView safe
  rw [tenantKind,same.order,← tenantKind] at filtered
  exact seenBinds (selectVerb blanks is ends) filtered same ok

end Calm
section Prepare

def report : Text := "SELECT uid FROM member WHERE tenant_id = :tenant AND status = ? AND note = ':tenant?' AND created_at > ?".toList

def reportRun : Text := "SELECT uid FROM member WHERE tenant_id = ? AND status = ? AND note = ':tenant?' AND created_at > ?".toList

theorem reportBound : prepare "tenant_a" report ["1","x"] = .ok (reportRun,["tenant_a","1","x"]) ∧
    Binds "tenant_a" report ["1","x"] reportRun ["tenant_a","1","x"] := by
  have _ : Nontrivial String := ⟨"tenant_a","1",by decide⟩
  have runs : prepare "tenant_a" report ["1","x"] = .ok (reportRun,["tenant_a","1","x"]) :=
    prepareRuns.mpr ⟨by decide,by decide,by decide,by decide⟩
  have seen : SameView report := ⟨by decide,by decide⟩
  exact ⟨runs,(tenantBound report 2).mpr (.inr ⟨by decide,by decide,seen⟩) "tenant_a" _ rfl _ _ runs⟩

instance [DecidableEq α] (tenant : α) (query : Text) (args : List α) (sql : Text) (out : List α) :
    Decidable (Binds tenant query args sql out) :=
  decidable_of_iff (mainVerb query = some "select".toList ∧ Piece.tenant ∈ pieces 0 (lexed query) ∧
      sql = textOf (pieces 0 (lexed query)) ∧ bind tenant (pieces 0 (lexed query)) args = some out)
    ⟨fun all => ⟨all.1,all.2.1,all.2.2.1,all.2.2.2⟩,fun binds => ⟨binds.verb,binds.filtered,binds.text,binds.bound⟩⟩

def unbound : List Text := [
  "SELECT * FROM member WHERE note = ':tenant'".toList,
  "SELECT * FROM member WHERE note = '\\'' AND tenant_id = :tenant".toList,
  "SELECT * FROM member -- WHERE tenant_id = :tenant".toList,
  "WITH a AS (SELECT 1) DELETE FROM member WHERE tenant_id = :tenant".toList,
  "/* a */ DELETE FROM member WHERE tenant_id = :tenant -- */ select".toList]

theorem tenantUnbound : (unbound.map fun query => (prepare "tenant_a" query []).toOption.map fun r =>
      decide (Binds "tenant_a" query [] r.1 r.2)) = List.replicate 5 (some false) ∧
    ¬ ∀ query sql out, prepare "tenant_a" query [] = .ok (sql,out) → Binds "tenant_a" query [] sql out := by
  refine ⟨by decide +kernel,fun binds => ?_⟩
  have runs : prepare "tenant_a" "SELECT * FROM member WHERE note = ':tenant'".toList [] =
      .ok ("SELECT * FROM member WHERE note = ':tenant'".toList,[]) := by decide
  exact absurd (binds _ _ _ runs).filtered (by decide)

end Prepare
end Claim
end DevkitCommon.Starrocksx
