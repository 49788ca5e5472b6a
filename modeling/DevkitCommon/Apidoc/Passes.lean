import DevkitCommon.Apidoc.ZeroPasses

/-! When zeroPasses answers what an expression means: its tokens are those of the grammar, and
what it reads of them is what a level reads, up to a comparison of a comparison. -/
namespace DevkitCommon.Apidoc.Expressions
open Words

section Lexed
variable {s t rest : Text} {c q : Char} {ts : List Text}

theorem vdTokensSkip (k : Nat) (s : Text) : vdTokens k s = vdTokens 0 (s.drop k) := by
  induction s generalizing k with
  | nil => cases k <;> rfl
  | cons c s ih =>
    cases k with
    | zero => rfl
    | succ k => exact ih k

theorem vdTokensCons (ink : isBlank c = false) :
    vdTokens 0 (c::rest) = (c::rest).take (tokenLength c rest)::vdTokens 0 (rest.drop (tokenLength c rest - 1)) := by
  rw [← vdTokensSkip,vdTokens,if_neg (by rw [ink]; decide)]

theorem doublesApart (mem : (c::t) ∈ doubles) : wordChar c = false ∧ isQuote c = false ∧ isBlank c = false := by
  have every : doubles.all (fun d => d.head?.all fun c => !wordChar c && !isQuote c && !isBlank c) = true := by decide
  have one := List.all_eq_true.mp every _ mem
  simp only [List.head?_cons,Option.all_some,Bool.and_eq_true,Bool.not_eq_true'] at one
  exact ⟨one.1.1,one.1.2,one.2⟩

theorem singlesApart (mem : c ∈ singles) : wordChar c = false ∧ isQuote c = false ∧ isBlank c = false := by
  have every : singles.all (fun c => !wordChar c && !isQuote c && !isBlank c) = true := by decide
  have one := List.all_eq_true.mp every _ mem
  simp only [Bool.and_eq_true,Bool.not_eq_true'] at one
  exact ⟨one.1.1,one.1.2,one.2⟩

theorem quoteApart (quote : isQuote c = true) : wordChar c = false ∧ isBlank c = false := by
  unfold isQuote at quote
  rcases (Bool.or_eq_true _ _).mp quote with is | is <;> rw [beq_iff_eq] at is <;> subst is <;> decide

theorem wordBlank (word : wordChar c = true) : isBlank c = false := by
  cases blank : isBlank c with
  | false => rfl
  | true =>
    unfold isBlank at blank
    rcases (Bool.or_eq_true _ _).mp blank with is | is <;> rw [beq_iff_eq] at is <;> subst is <;> exact absurd word (by decide)

theorem doublesLength (mem : t ∈ doubles) : t.length = 2 := by
  have every : doubles.all (fun d => d.length == 2) = true := by decide
  exact beq_iff_eq.mp (List.all_eq_true.mp every _ mem)

theorem literalLengthEnd : literalLength q (q::rest) = 1 := by
  cases rest <;> simp only [literalLength,if_true]

theorem literalLengthPair (other : '\\' ≠ q) : literalLength q ('\\'::c::rest) = literalLength q rest + 2 := by
  simp only [literalLength,other,if_false,if_true]

theorem literalLengthChar (other : c ≠ q) (plain : c ≠ '\\') : literalLength q (c::rest) = literalLength q rest + 1 := by
  cases rest <;> simp only [literalLength,other,plain,if_false]

theorem literalLengthClosed {body : Text} (closed : Closed q body) (quote : isQuote q = true) (rest : Text) :
    literalLength q (body ++ q::rest) = body.length + 1 := by
  have other : '\\' ≠ q := fun same => absurd quote (by rw [← same]; decide)
  induction closed with
  | nil => exact literalLengthEnd
  | pair more ih => rw [List.cons_append,List.cons_append,literalLengthPair other,ih,List.length_cons,List.length_cons]
  | char distinct plain more ih => rw [List.cons_append,literalLengthChar distinct plain,ih,List.length_cons]

theorem tokenLengthIs (is : Token (c::t)) (apart : Apart (c::t) s) :
    isBlank c = false ∧ tokenLength c (t ++ s) = t.length + 1 := by
  unfold tokenLength
  cases is with
  | double mem =>
    have two : t.length + 1 = 2 := doublesLength mem
    have front : (c::(t ++ s)).take 2 = c::t := by
      rw [← List.cons_append]
      exact List.take_left' two
    exact ⟨(doublesApart mem).2.2,by rw [front,if_pos mem,two]⟩
  | single mem =>
    have lone : (c::([] ++ s)).take 2 ∉ doubles := by
      cases s with
      | nil => exact fun mem => absurd (doublesLength mem) (Nat.succ_ne_succ_iff.mpr Nat.zero_ne_one)
      | cons d s => exact apart.double d rfl
    exact ⟨(singlesApart mem).2.2,by rw [if_neg lone,if_pos mem]; rfl⟩
  | word _ all =>
    have word : wordChar c = true := all c List.mem_cons_self
    have lone : (c::(t ++ s)).take 2 ∉ doubles := by
      rw [List.take_succ_cons]
      exact fun mem => absurd word (by rw [(doublesApart mem).1]; decide)
    have other : c ∉ singles := fun mem => absurd word (by rw [(singlesApart mem).1]; decide)
    have bare : ¬ isQuote c = true := fun quote => absurd word (by rw [(quoteApart quote).1]; decide)
    have run : (c::(t ++ s)).takeWhile wordChar = c::t := by
      rw [← List.cons_append,List.takeWhile_append_of_pos all]
      have stop : s.takeWhile wordChar = [] := by
        cases s with
        | nil => rfl
        | cons d s => exact List.takeWhile_cons_of_neg (by rw [apart.word all d rfl]; decide)
      rw [stop,List.append_nil]
    refine ⟨wordBlank word,?_⟩
    rw [if_neg lone,if_neg other,if_neg bare,run]
    exact Nat.max_eq_right (Nat.succ_le_succ (Nat.zero_le _))
  | literal quote closed =>
    rename_i body
    have lone : (c::(body ++ [c] ++ s)).take 2 ∉ doubles := by
      rw [List.take_succ_cons]
      exact fun mem => absurd quote (by rw [(doublesApart mem).2.1]; decide)
    have other : c ∉ singles := fun mem => absurd quote (by rw [(singlesApart mem).2.1]; decide)
    refine ⟨(quoteApart quote).2,?_⟩
    rw [if_neg lone,if_neg other,if_pos quote,List.append_assoc,List.singleton_append,literalLengthClosed closed quote]
    simp only [List.length_append,List.length_singleton]

theorem lexesTokens (is : Lexes s ts) : vdTokens 0 s = ts := by
  induction is with
  | done => rfl
  | blank is _ ih => exact (if_pos is).trans ih
  | token is apart _ ih =>
    rename_i t s ts more
    cases t with
    | nil =>
      have none : Token [] → False := by
        intro is
        generalize empty : ([] : Text) = t at is
        cases is with
        | double mem => subst empty; exact absurd (doublesLength mem) (by decide)
        | single => cases empty
        | word some' => exact some' empty.symm
        | literal => cases empty
      exact absurd is none
    | cons c t =>
      obtain ⟨ink,long⟩ := tokenLengthIs is apart
      rw [List.cons_append,vdTokensCons ink,long,← List.cons_append]
      have front : (c::t ++ s).take (t.length + 1) = c::t := List.take_left' rfl
      have back : (t ++ s).drop (t.length + 1 - 1) = s := List.drop_left' rfl
      rw [front,back,ih]

theorem tokenLengthPos (c : Char) (rest : Text) : 1 ≤ tokenLength c rest := by
  unfold tokenLength
  split
  · exact Nat.le_succ 1
  · split
    · exact Nat.le_refl _
    · split
      · exact Nat.succ_le_succ (Nat.zero_le _)
      · exact Nat.le_max_left _ _

theorem tokenCut (c : Char) (rest : Text) : ∃ t, (c::rest).take (tokenLength c rest) = c::t ∧
    rest.drop (tokenLength c rest - 1) = (c::rest).drop (tokenLength c rest) := by
  obtain ⟨n,is⟩ := Nat.exists_eq_add_of_le' (tokenLengthPos c rest)
  rw [is]
  exact ⟨rest.take n,rfl,rfl⟩

theorem loneApart (lone : (c::rest).take 2 ∉ doubles) (other : wordChar c = false) : Apart ((c::rest).take 1) ((c::rest).drop 1) where
  word := fun all => absurd (all c List.mem_cons_self) (by rw [other]; decide)
  double := by
    intro d front
    obtain ⟨more,rfl⟩ := List.head?_eq_some_iff.mp front
    exact lone

theorem wordLength (word : wordChar c = true) : tokenLength c rest = ((c::rest).takeWhile wordChar).length := by
  have lone : (c::rest).take 2 ∉ doubles := fun mem => absurd word (by rw [(doublesApart mem).1]; decide)
  have other : c ∉ singles := fun mem => absurd word (by rw [(singlesApart mem).1]; decide)
  have bare : ¬ isQuote c = true := fun quote => absurd word (by rw [(quoteApart quote).1]; decide)
  unfold tokenLength
  rw [if_neg lone,if_neg other,if_neg bare,List.takeWhile_cons_of_pos word]
  exact Nat.max_eq_right (Nat.succ_le_succ (Nat.zero_le _))

theorem wordTaken (word : wordChar c = true) : (c::rest).take (tokenLength c rest) = (c::rest).takeWhile wordChar := by
  rw [wordLength word]
  exact (List.prefix_iff_eq_take.mp (List.takeWhile_prefix _)).symm

theorem tokenApart : Apart ((c::rest).take (tokenLength c rest)) ((c::rest).drop (tokenLength c rest)) := by
  cases word : wordChar c with
  | true =>
    have back : (c::rest).drop (tokenLength c rest) = (c::rest).dropWhile wordChar := by
      have whole := List.takeWhile_append_dropWhile (p := wordChar) (l := c::rest)
      rw [wordLength word]
      nth_rewrite 2 [← whole]
      exact List.drop_left' rfl
    rw [wordTaken word,back]
    constructor
    · intro _ d front
      have no := List.head?_dropWhile_not wordChar (c::rest)
      rw [front] at no
      exact no
    · intro d _ mem
      rw [List.takeWhile_cons_of_pos word] at mem
      exact absurd word (by rw [(doublesApart mem).1]; decide)
  | false =>
    unfold tokenLength
    split
    · rename_i mem
      constructor
      · exact fun all => absurd (all c List.mem_cons_self) (by rw [word]; decide)
      · intro d _ more
        have two := doublesLength mem
        have three := doublesLength more
        rw [List.length_append,two] at three
        cases three
    · rename_i lone
      split
      · exact loneApart lone word
      · split
        · rename_i quote
          constructor
          · exact fun all => absurd (all c List.mem_cons_self) (by rw [word]; decide)
          · exact fun d _ mem => absurd quote (by rw [(doublesApart mem).2.1]; decide)
        · rw [List.takeWhile_cons_of_neg (by rw [word]; decide)]
          exact loneApart lone word

theorem tokensLex (s : Text) (every : ∀ t ∈ vdTokens 0 s, Token t) : Lexes s (vdTokens 0 s) := by
  generalize long : s.length = n
  induction n using Nat.strong_induction_on generalizing s with
  | h n ih =>
    subst long
    cases s with
    | nil => exact .done
    | cons c rest =>
      cases ink : isBlank c with
      | true =>
        have is : vdTokens 0 (c::rest) = vdTokens 0 rest := if_pos ink
        rw [is] at every ⊢
        exact .blank ink (ih _ (Nat.lt_succ_self _) rest every rfl)
      | false =>
        obtain ⟨t,front,back⟩ := tokenCut c rest
        rw [vdTokensCons ink] at every ⊢
        have shorter : (rest.drop (tokenLength c rest - 1)).length < (c::rest).length := by
          rw [List.length_drop,List.length_cons]
          omega
        have more := ih _ shorter _ (fun t mem => every t (List.mem_cons_of_mem _ mem)) rfl
        rw [back] at more ⊢
        have joined := Lexes.token (every _ List.mem_cons_self) tokenApart more
        rwa [List.take_append_drop] at joined

end Lexed
section Formed
variable {s t rest : Text} {c q : Char}

structure Formed (t : Text) : Prop where
  number : numberLike t = true → ∀ c ∈ t, wordChar c = true
  literal : literalLike t = true → Unescaped t → ¬ (t.length < 2 ∨ t.getLast? ≠ t.head?) →
    ∃ q body, t = q::(body ++ [q]) ∧ isQuote q = true ∧ Closed q body ∧ resolve body = body

theorem unescapedTail (plain : Unescaped (c::t)) : Unescaped t :=
  fun d special inside => plain d special (inside.trans (List.suffix_cons c t).isInfix)

theorem resolveChar (plain : c ≠ '\\') : resolve (c::t) = c::resolve t := by
  rw [resolve]
  exact fun _ _ same => absurd same plain

theorem literalBody (quote : isQuote q = true) (plain : Unescaped (rest.take (literalLength q rest)))
    (last : (rest.take (literalLength q rest)).getLast? = some q) :
    ∃ body, rest.take (literalLength q rest) = body ++ [q] ∧ Closed q body ∧ resolve body = body := by
  generalize long : rest.length = n
  induction n using Nat.strong_induction_on generalizing rest with
  | h n ih =>
    subst long
    have slash : '\\' ≠ q := fun same => absurd quote (by rw [← same]; decide)
    cases rest with
    | nil => cases last
    | cons c rest =>
      by_cases end' : c = q
      · subst end'
        rw [literalLengthEnd]
        exact ⟨[],rfl,.nil,rfl⟩
      by_cases escape : c = '\\'
      · subst escape
        cases rest with
        | nil =>
          have whole : ['\\'].take (literalLength q ['\\']) = ['\\'] := by
            simp only [literalLength,end',if_false,if_true,List.take_succ_cons,List.take_nil]
          rw [whole] at last
          exact absurd (Option.some.inj last) slash
        | cons d rest =>
          rw [literalLengthPair slash,List.take_succ_cons,List.take_succ_cons] at last plain ⊢
          have front : ['\\',d] <:+: '\\'::d::rest.take (literalLength q rest) := ⟨[],_,rfl⟩
          have bare : ¬ (d = '\\' ∨ isQuote d = true) := fun special => plain d special front
          have last' : (rest.take (literalLength q rest)).getLast? = some q := by
            cases more : rest.take (literalLength q rest) with
            | nil =>
              rw [more] at last
              have same : d = q := Option.some.inj last
              exact absurd (Or.inr (by rw [same]; exact quote)) bare
            | cons e es =>
              rw [more] at last
              exact last
          have shorter : rest.length < ('\\'::d::rest).length := by
            rw [List.length_cons,List.length_cons]
            omega
          obtain ⟨body,is,closed,same⟩ := ih _ shorter (unescapedTail (unescapedTail plain)) last' rfl
          exact ⟨'\\'::d::body,by rw [is]; rfl,.pair closed,by simp only [resolve,bare,if_false,same]⟩
      · rw [literalLengthChar end' escape,List.take_succ_cons] at last plain ⊢
        have last' : (rest.take (literalLength q rest)).getLast? = some q := by
          cases more : rest.take (literalLength q rest) with
          | nil =>
            rw [more] at last
            exact absurd (Option.some.inj last) end'
          | cons e es =>
            rw [more] at last
            exact last
        obtain ⟨body,is,closed,same⟩ := ih _ (Nat.lt_succ_self _) (unescapedTail plain) last' rfl
        exact ⟨c::body,by rw [is]; rfl,.char end' escape closed,by rw [resolveChar escape,same]⟩

theorem tokenFormed : Formed ((c::rest).take (tokenLength c rest)) := by
  obtain ⟨t,is,_⟩ := tokenCut c rest
  constructor
  · intro number
    have word : wordChar c = true := by
      rw [is] at number
      simp only [numberLike,List.head?_cons,Option.any_some,Bool.or_eq_true,beq_iff_eq] at number
      unfold wordChar
      rcases number with digit | dot
      · simp only [Char.isAlphanum,digit,Bool.or_true]
      · subst dot
        decide
    rw [wordTaken word]
    exact fun d mem => List.mem_takeWhile_imp mem
  · intro literal plain ended
    have quote : isQuote c = true := by rwa [is] at literal
    have lone : (c::rest).take 2 ∉ doubles := fun mem => absurd quote (by rw [(doublesApart mem).2.1]; decide)
    have other : c ∉ singles := fun mem => absurd quote (by rw [(singlesApart mem).2.1]; decide)
    have long : tokenLength c rest = literalLength c rest + 1 := by
      unfold tokenLength
      rw [if_neg lone,if_neg other,if_pos quote]
    rw [long,List.take_succ_cons] at plain ended ⊢
    have last : (rest.take (literalLength c rest)).getLast? = some c := by
      by_contra no
      refine ended ?_
      cases more : rest.take (literalLength c rest) with
      | nil => exact .inl (Nat.lt_succ_self 1)
      | cons d ds =>
        rw [more] at no
        exact .inr no
    obtain ⟨body,whole,closed,same⟩ := literalBody quote (unescapedTail plain) last
    exact ⟨c,body,by rw [whole],quote,closed,same⟩

theorem tokensFormed (k : Nat) (s : Text) : ∀ t ∈ vdTokens k s, Formed t := by
  induction s generalizing k with
  | nil => cases k <;> exact fun t mem => absurd mem List.not_mem_nil
  | cons c rest ih =>
    cases k with
    | succ k => exact ih k
    | zero =>
      intro t mem
      rw [vdTokens] at mem
      split at mem
      · exact ih 0 t mem
      · rcases List.mem_cons.mp mem with rfl | mem
        · exact tokenFormed
        · exact ih _ t mem

end Formed
section Known
variable {t : Text} {op : Op} {us : List Text}

def spelled (t : Text) : Bool :=
  doubles.contains t || (t.length == 1 && t.all singles.contains) || (!t.isEmpty && t.all wordChar)

theorem spelledToken (is : spelled t = true) : Token t := by
  simp only [spelled,Bool.or_eq_true,Bool.and_eq_true,Bool.not_eq_true',beq_iff_eq] at is
  rcases is with (double | ⟨one,single⟩) | ⟨some',word⟩
  · exact .double (List.contains_iff_mem.mp double)
  · obtain ⟨c,rfl⟩ := List.length_eq_one_iff.mp one
    exact .single (List.contains_iff_mem.mp (List.all_eq_true.mp single c List.mem_cons_self))
  · exact .word (fun empty => by rw [empty] at some'; cases some') (List.all_eq_true.mp word)

theorem opOfText (is : opOf t = some op) : t = op.text.toList := by
  have same := List.find?_some (p := fun op : Op => decide (op.text.toList = t)) is
  exact (of_decide_eq_true same).symm

theorem opToken (is : opOf t = some op) : Token t := by
  rw [opOfText is]
  cases op <;> exact spelledToken (by decide)

theorem comparedFront (compared : Compared us) (other : opOf t = none) : us.head? ≠ some t := by
  obtain ⟨u,op,front,is⟩ := compared
  intro same
  rw [front] at same
  cases same
  exact absurd (is.symm.trans other) nofun

theorem stopsPlain (plain : ¬ Compared us) (equality : Bool) : Stops equality us :=
  fun u op front is => absurd ⟨u,op,front,is⟩ plain

end Known
section Sound
variable {env : Env} {ts us rest : List Text} {t : Text} {v l : Val} {g : Goal} {n : Nat} {p : Val × List Text}

theorem failNot {e : String} : fail e ≠ some (.ok p) := nofun

theorem doneOk (is : done l us = some (.ok (v,rest))) : l = v ∧ us = rest := by
  cases is
  exact ⟨rfl,rfl⟩

theorem behindOk {r : Option Reply} {f : Val → List Text → Option Reply} (is : behind r f = some (.ok p)) :
    ∃ l us, r = some (.ok (l,us)) ∧ f l us = some (.ok p) := by
  cases r with
  | none => cases is
  | some reply =>
    cases reply with
    | error e => cases is
    | ok q => exact ⟨q.1,q.2,rfl,is⟩

theorem expectOk {u : String} {f : List Text → Option Reply} (is : expect u ts f = some (.ok p)) :
    ∃ us, ts = u.toList::us ∧ f us = some (.ok p) := by
  cases ts with
  | nil => exact absurd is failNot
  | cons t us =>
    unfold expect at is
    dsimp only at is
    split at is
    · rename_i same
      exact ⟨us,by rw [same],is⟩
    · exact absurd is failNot

def Uses (ts rest : List Text) : Prop := ∃ used, ts = used ++ rest ∧ ∀ t ∈ used, Token t

theorem usesNone : Uses ts ts := ⟨[],rfl,fun _ mem => absurd mem List.not_mem_nil⟩

theorem usesCons (is : Token t) (more : Uses ts rest) : Uses (t::ts) rest := by
  obtain ⟨used,rfl,every⟩ := more
  exact ⟨t::used,rfl,fun u mem => (List.mem_cons.mp mem).elim (fun same => same ▸ is) (every u)⟩

theorem usesTrans (first : Uses ts us) (more : Uses us rest) : Uses ts rest := by
  obtain ⟨used,rfl,every⟩ := first
  obtain ⟨used',rfl,every'⟩ := more
  exact ⟨used ++ used',(List.append_assoc _ _ _).symm,fun t mem => (List.mem_append.mp mem).elim (every t) (every' t)⟩

structure Fit (env : Env) (g : Goal) (ts : List Text) : Prop where
  formed : ∀ t ∈ ts, Formed t
  plain : Plain env g ts
  tight : Tight env g ts

theorem usesSuffix (uses : Uses ts rest) : rest <:+ ts := by
  obtain ⟨used,rfl,_⟩ := uses
  exact List.suffix_append used rest

theorem fitCall {g' : Goal} (fit : Fit env g ts) (call : Calls env (g,ts) (g',us)) (behind' : us <:+ ts) : Fit env g' us :=
  ⟨fun t mem => fit.formed t (behind'.subset mem),fun t rest comes => fit.plain t rest (.head call comes),
    fun back v rest comes => fit.tight back v rest (.head call comes)⟩

def Goal.level : Goal → Level
  | .or => .or
  | .orRest l => .orRest l
  | .and => .and
  | .andRest l => .andRest l
  | .not | .cmp => .eq
  | .prim => .prim
  | .args => .args

def Goal.Loose : Goal → Prop
  | .prim | .args => False
  | _ => True

structure Read (env : Env) (g : Goal) (ts : List Text) (v : Val) (rest : List Text) : Prop where
  uses : Uses ts rest
  reads : Reads env g.level ts v rest ∨ g.Loose ∧ Compared rest

theorem orRestStop (stop : us.head? ≠ some "||".toList) (is : parse env n (.orRest l) us = some (.ok (v,rest))) : us = rest := by
  cases n with
  | zero => cases is
  | succ n =>
    cases us with
    | nil => exact (doneOk is).2
    | cons t us =>
      rw [parse,if_neg (fun same => stop (congrArg some same))] at is
      exact (doneOk is).2

theorem andRestStop (stop : us.head? ≠ some "&&".toList) (is : parse env n (.andRest l) us = some (.ok (v,rest))) : us = rest := by
  cases n with
  | zero => cases is
  | succ n =>
    cases us with
    | nil => exact (doneOk is).2
    | cons t us =>
      rw [parse,if_neg (fun same => stop (congrArg some same))] at is
      exact (doneOk is).2

theorem operandReads (reads : Reads env .unary ts v rest) (plain : ¬ Compared rest) : Reads env .eq ts v rest :=
  .eq (.rel reads (.relStop (stopsPlain plain false))) (.eqStop (stopsPlain plain true))

theorem eqOperand (reads : Reads env .eq ts v rest) :
    ∃ l us, Reads env .unary ts l us ∧ (¬ Compared us → l = v ∧ us = rest) := by
  cases reads with
  | eq first more =>
    cases first with
    | rel operand behind' =>
      refine ⟨_,_,operand,fun plain => ?_⟩
      cases behind' with
      | relMore is => exact absurd ⟨_,_,rfl,is⟩ plain
      | relStop =>
        cases more with
        | eqMore is => exact absurd ⟨_,_,rfl,is⟩ plain
        | eqStop => exact ⟨rfl,rfl⟩

theorem primUnary (reads : Reads env .prim ts v rest) : Reads env .unary ts v rest := by
  refine .unary (fun front => ?_) reads
  have other : headOf "!".toList = .other := by decide
  cases reads with
  | paren is | zero is | nil is | bool is | minus is | literal is | number is | len is | regexp is | regexpOf is | check is =>
    rw [Option.some.inj front,other] at is
    cases is

theorem cmpReads {t : Text} {op : Op} {r : Val} {b : Bool} (left : Reads env .prim ts l (t::us)) (is : opOf t = some op)
    (right : Reads env .prim us r rest) (value : Compares l op r b) (plain : ¬ Compared rest) :
    Reads env .eq ts (.bool b) rest := by
  have lower : Reads env .unary us r rest := primUnary right
  have stop := stopsPlain plain
  cases kind : op.equality with
  | true =>
    have before : Stops false (t::us) := by
      intro u op' front is'
      cases front
      cases is.symm.trans is'
      rw [kind]
      decide
    exact .eq (.rel (primUnary left) (.relStop before))
      (.eqMore is kind (.rel lower (.relStop (stop false))) value (.eqStop (stop true)))
  | false =>
    exact .eq (.rel (primUnary left) (.relMore is kind lower value (.relStop (stop false)))) (.eqStop (stop true))

theorem boolsOk {l r : Val} {e : String} {f : Bool → Bool → Option Reply}
    (is : (match l,r with
      | .bool a,.bool b => f a b
      | _,_ => fail e) = some (.ok p)) : ∃ a b, l = .bool a ∧ r = .bool b ∧ f a b = some (.ok p) := by
  split at is
  · exact ⟨_,_,rfl,rfl,is⟩
  · exact absurd is failNot

theorem iteOk {c : Prop} [Decidable c] {r r' : Option Reply} (is : (if c then r else r') = some (.ok p)) :
    r = some (.ok p) ∨ r' = some (.ok p) := by
  split at is
  · exact .inl is
  · exact .inr is

theorem parseSuffix (is : parse env n g ts = some (.ok (v,rest))) : rest <:+ ts := by
  induction n generalizing g ts v rest with
  | zero => cases is
  | succ n ih =>
    have atEnd {t : Text} {us vs : List Text} (more : vs <:+ us) : vs <:+ t::us := more.trans (List.suffix_cons t us)
    have finished {l : Val} {us vs : List Text} (is : done l us = some (.ok (v,rest))) (more : us <:+ vs) : rest <:+ vs := by
      obtain ⟨-,rfl⟩ := doneOk is
      exact more
    have closes {u : String} {us : List Text} {f : List Text → Option Reply} (is : expect u us f = some (.ok (v,rest)))
        (next : ∀ ws, f ws = some (.ok (v,rest)) → rest <:+ ws) : rest <:+ us := by
      obtain ⟨ws,rfl,last⟩ := expectOk is
      exact atEnd (next ws last)
    have ends {u : String} {l : Val} {us : List Text} (is : expect u us (fun ws => done l ws) = some (.ok (v,rest))) :
        rest <:+ us := closes is fun ws last => finished last List.suffix_rfl
    cases g with
    | or | and =>
      obtain ⟨l,us,first,more⟩ := behindOk is
      exact (ih more).trans (ih first)
    | orRest l | andRest l =>
      cases ts with
      | nil => exact finished is List.suffix_rfl
      | cons t ts =>
        rw [parse] at is
        split at is
        · obtain ⟨r,us,second,more⟩ := behindOk is
          obtain ⟨a,b,-,-,more⟩ := boolsOk more
          exact atEnd ((ih more).trans (ih second))
        · exact finished is List.suffix_rfl
    | not =>
      cases ts with
      | nil => exact ih (g := .cmp) is
      | cons t ts =>
        rw [parse] at is
        split at is
        · obtain ⟨b,us,inner,more⟩ := behindOk is
          cases b with
          | bool b => exact finished more (atEnd (ih inner))
          | zero | num | str | nil => exact absurd more failNot
        · exact ih (g := .cmp) is
    | cmp =>
      obtain ⟨l,us,first,more⟩ := behindOk is
      refine List.IsSuffix.trans ?_ (ih first)
      cases us with
      | nil => exact finished more List.suffix_rfl
      | cons t us =>
        dsimp only at more
        split at more
        · obtain ⟨r,ws,second,more⟩ := behindOk more
          split at more
          · exact finished more (atEnd (ih second))
          · exact absurd more failNot
        · exact finished more List.suffix_rfl
    | args =>
      cases ts with
      | nil => exact absurd is failNot
      | cons t ts =>
        rw [parse] at is
        split at is
        · obtain ⟨a,us,first,more⟩ := behindOk is
          exact atEnd ((ih more).trans (ih first))
        · exact ends is
    | prim =>
      cases ts with
      | nil => exact absurd is failNot
      | cons t ts =>
        rw [parse] at is
        refine atEnd ?_
        rcases iteOk is with paren | is
        · obtain ⟨w,us,inner,more⟩ := behindOk paren
          exact (ends more).trans (ih inner)
        rcases iteOk is with zero | is
        · exact finished zero List.suffix_rfl
        rcases iteOk is with null | is
        · exact finished null List.suffix_rfl
        rcases iteOk is with bool | is
        · exact finished bool List.suffix_rfl
        rcases iteOk is with minus | is
        · obtain ⟨w,us,inner,more⟩ := behindOk minus
          cases w with
          | num x => exact finished more (ih inner)
          | zero | str | bool | nil => exact absurd more failNot
        rcases iteOk is with literal | is
        · rcases iteOk literal with no | closed
          · exact absurd no failNot
          · exact finished closed List.suffix_rfl
        rcases iteOk is with number | is
        · split at number
          · exact finished number List.suffix_rfl
          · exact absurd number failNot
        rcases iteOk is with len | is
        · exact closes len fun us more => closes more fun vs more => ends more
        rcases iteOk is with regexp | is
        · refine closes regexp fun us more => ?_
          obtain ⟨w,ws,inner,more⟩ := behindOk more
          cases w with
          | str s =>
            refine List.IsSuffix.trans ?_ (ih inner)
            cases ws with
            | nil => exact absurd more failNot
            | cons u ws =>
              rcases iteOk more with dollar | more
              · refine atEnd (closes dollar fun xs last => closes last fun ys last => ?_)
                split at last
                · exact finished last List.suffix_rfl
                · exact absurd last failNot
              · refine closes more fun ys last => ?_
                split at last
                · exact finished last List.suffix_rfl
                · exact absurd last failNot
          | zero | num | bool | nil => exact absurd more failNot
        rcases iteOk is with check | is
        · exact closes check fun us more => closes more fun vs more => ih more
        · exact absurd is failNot

theorem callsSuffix {x y : Goal × List Text} (call : Calls env x y) : y.2 <:+ x.2 := by
  cases call with
  | or | and | not | left => exact List.suffix_rfl
  | orRest first | andRest first => exact parseSuffix first
  | orNext | andNext | bang | paren | minus | arg => exact List.suffix_cons _ _
  | orMore is next | andMore is next | args is next => exact (parseSuffix next).trans (List.suffix_cons _ _)
  | right first is => exact (List.suffix_cons _ _).trans (parseSuffix first)
  | pattern => exact (List.suffix_cons _ _).trans (List.suffix_cons _ _)
  | check => exact ((List.suffix_cons _ _).trans (List.suffix_cons _ _)).trans (List.suffix_cons _ _)

theorem comesSuffix {x y : Goal × List Text} (comes : Comes env x y) : y.2 <:+ x.2 := by
  induction comes with
  | refl => exact List.suffix_rfl
  | tail _ call ih => exact (callsSuffix call).trans ih

def Sound (env : Env) (n : Nat) : Prop :=
  ∀ {g ts v rest}, Fit env g ts → parse env n g ts = some (.ok (v,rest)) → Read env g ts v rest

theorem soundPrim (ih : Sound env n) (fit : Fit env .prim ts) (is : parse env n .prim ts = some (.ok (v,rest))) :
    Uses ts rest ∧ Reads env .prim ts v rest := by
  obtain ⟨uses,reads⟩ := ih fit is
  exact ⟨uses,reads.elim id fun loose => absurd loose.1 id⟩

theorem orRead (ih : Sound env n) (fit : Fit env .or ts) (is : parse env (n + 1) .or ts = some (.ok (v,rest))) :
    Read env .or ts v rest := by
  obtain ⟨l,us,first,more⟩ := behindOk is
  have read := ih (fitCall fit .or List.suffix_rfl) first
  have next := ih (fitCall fit (.orRest first) (usesSuffix read.uses)) more
  refine ⟨usesTrans read.uses next.uses,?_⟩
  rcases read.reads with whole | ⟨_,compared⟩
  · exact next.reads.imp (fun back => .or whole back) id
  · have same := orRestStop (comparedFront compared (by decide)) more
    exact .inr ⟨trivial,same ▸ compared⟩

theorem andRead (ih : Sound env n) (fit : Fit env .and ts) (is : parse env (n + 1) .and ts = some (.ok (v,rest))) :
    Read env .and ts v rest := by
  obtain ⟨l,us,first,more⟩ := behindOk is
  have read := ih (fitCall fit .and List.suffix_rfl) first
  have next := ih (fitCall fit (.andRest first) (usesSuffix read.uses)) more
  refine ⟨usesTrans read.uses next.uses,?_⟩
  rcases read.reads with whole | ⟨_,compared⟩
  · exact next.reads.imp (fun back => .and whole back) id
  · have same := andRestStop (comparedFront compared (by decide)) more
    exact .inr ⟨trivial,same ▸ compared⟩

theorem orRestRead (ih : Sound env n) (fit : Fit env (.orRest l) ts) (is : parse env (n + 1) (.orRest l) ts = some (.ok (v,rest))) :
    Read env (.orRest l) ts v rest := by
  cases ts with
  | nil =>
    obtain ⟨rfl,rfl⟩ := doneOk is
    exact ⟨usesNone,.inl (.orStop nofun)⟩
  | cons t ts =>
    rw [parse] at is
    by_cases bars : t = "||".toList
    · rw [if_pos bars] at is
      obtain ⟨r,us,second,more⟩ := behindOk is
      obtain ⟨a,b,rfl,rfl,more⟩ := boolsOk more
      have read := ih (fitCall fit (.orNext bars) (List.suffix_cons _ _)) second
      have back := (usesSuffix read.uses).trans (List.suffix_cons t ts)
      have next := ih (fitCall fit (.orMore bars second) back) more
      refine ⟨usesCons (bars ▸ spelledToken (by decide)) (usesTrans read.uses next.uses),?_⟩
      rcases read.reads with whole | ⟨_,compared⟩
      · exact next.reads.imp (fun back => .orMore bars whole back) id
      · have same := orRestStop (comparedFront compared (by decide)) more
        exact .inr ⟨trivial,same ▸ compared⟩
    · rw [if_neg bars] at is
      obtain ⟨rfl,rfl⟩ := doneOk is
      exact ⟨usesNone,.inl (.orStop fun same => bars (Option.some.inj same))⟩

theorem andRestRead (ih : Sound env n) (fit : Fit env (.andRest l) ts) (is : parse env (n + 1) (.andRest l) ts = some (.ok (v,rest))) :
    Read env (.andRest l) ts v rest := by
  cases ts with
  | nil =>
    obtain ⟨rfl,rfl⟩ := doneOk is
    exact ⟨usesNone,.inl (.andStop nofun)⟩
  | cons t ts =>
    rw [parse] at is
    by_cases ands : t = "&&".toList
    · rw [if_pos ands] at is
      obtain ⟨r,us,second,more⟩ := behindOk is
      obtain ⟨a,b,rfl,rfl,more⟩ := boolsOk more
      have read := ih (fitCall fit (.andNext ands) (List.suffix_cons _ _)) second
      have back := (usesSuffix read.uses).trans (List.suffix_cons t ts)
      have next := ih (fitCall fit (.andMore ands second) back) more
      refine ⟨usesCons (ands ▸ spelledToken (by decide)) (usesTrans read.uses next.uses),?_⟩
      rcases read.reads with whole | ⟨_,compared⟩
      · exact next.reads.imp (fun back => .andMore ands whole back) id
      · have same := andRestStop (comparedFront compared (by decide)) more
        exact .inr ⟨trivial,same ▸ compared⟩
    · rw [if_neg ands] at is
      obtain ⟨rfl,rfl⟩ := doneOk is
      exact ⟨usesNone,.inl (.andStop fun same => ands (Option.some.inj same))⟩

theorem notRead (ih : Sound env n) (fit : Fit env .not ts) (is : parse env (n + 1) .not ts = some (.ok (v,rest))) :
    Read env .not ts v rest := by
  cases ts with
  | nil =>
    have read := ih (fitCall fit (.not nofun) List.suffix_rfl) is
    exact ⟨read.uses,read.reads⟩
  | cons t ts =>
    rw [parse] at is
    by_cases bang : t = "!".toList
    · rw [if_pos bang] at is
      obtain ⟨b,us,inner,more⟩ := behindOk is
      have read := ih (fitCall fit (.bang bang) (List.suffix_cons _ _)) inner
      have uses : Uses (t::ts) us := usesCons (bang ▸ spelledToken (by decide)) read.uses
      cases b with
      | bool b =>
        obtain ⟨rfl,rfl⟩ := doneOk more
        refine ⟨uses,?_⟩
        rcases read.reads with whole | loose
        · obtain ⟨l,us,operand,plain⟩ := eqOperand whole
          have tight := fit.tight ts l us (bang ▸ .refl) operand
          obtain ⟨rfl,rfl⟩ := plain tight
          exact .inl (operandReads (.unaryNot bang operand) tight)
        · exact .inr loose
      | zero | num | str | nil => exact absurd more failNot
    · rw [if_neg bang] at is
      have other : (t::ts).head? ≠ some "!".toList := fun same => bang (Option.some.inj same)
      have read := ih (fitCall fit (.not other) List.suffix_rfl) is
      exact ⟨read.uses,read.reads⟩

theorem cmpRead (ih : Sound env n) (fit : Fit env .cmp ts) (is : parse env (n + 1) .cmp ts = some (.ok (v,rest))) :
    Read env .cmp ts v rest := by
  obtain ⟨l,us,first,more⟩ := behindOk is
  obtain ⟨uses,left⟩ := soundPrim ih (fitCall fit .left List.suffix_rfl) first
  cases us with
  | nil =>
    obtain ⟨rfl,rfl⟩ := doneOk more
    exact ⟨uses,.inl (operandReads (primUnary left) fun ⟨_,_,front,_⟩ => nomatch front)⟩
  | cons t us =>
    dsimp only at more
    cases op : opOf t with
    | none =>
      rw [op] at more
      obtain ⟨rfl,rfl⟩ := doneOk more
      have plain : ¬ Compared (t::us) := by
        rintro ⟨u,o,front,is⟩
        cases front
        cases is.symm.trans op
      exact ⟨uses,.inl (operandReads (primUnary left) plain)⟩
    | some o =>
      rw [op] at more
      obtain ⟨r,ws,second,more⟩ := behindOk more
      have back := (List.suffix_cons t us).trans (usesSuffix uses)
      obtain ⟨used,right⟩ := soundPrim ih (fitCall fit (.right first op) back) second
      cases result : compare l o r with
      | error e =>
        rw [result] at more
        exact absurd more failNot
      | ok b =>
        rw [result] at more
        obtain ⟨rfl,rfl⟩ := doneOk more
        obtain ⟨b,rfl,value⟩ := compareCompares result
        refine ⟨usesTrans uses (usesCons (opToken op) used),?_⟩
        by_cases compared : Compared ws
        · exact .inr ⟨trivial,compared⟩
        · exact .inl (cmpReads left op right value compared)

theorem argsRead (ih : Sound env n) (fit : Fit env .args ts) (is : parse env (n + 1) .args ts = some (.ok (v,rest))) :
    Read env .args ts v rest := by
  cases ts with
  | nil => exact absurd is failNot
  | cons t ts =>
    rw [parse] at is
    by_cases comma : t = ",".toList
    · rw [if_pos comma] at is
      obtain ⟨a,us,first,more⟩ := behindOk is
      obtain ⟨uses,reads⟩ := soundPrim ih (fitCall fit (.arg comma) (List.suffix_cons _ _)) first
      have behind' := (usesSuffix uses).trans (List.suffix_cons t ts)
      have next := ih (fitCall fit (.args comma first) behind') more
      have back : Reads env .args us v rest := next.reads.elim id fun loose => absurd loose.1 id
      exact ⟨usesCons (comma ▸ spelledToken (by decide)) (usesTrans uses next.uses),.inl (.argsMore comma reads back)⟩
    · rw [if_neg comma] at is
      obtain ⟨us,bracket,more⟩ := expectOk is
      obtain ⟨rfl,rfl⟩ := List.cons.inj bracket
      obtain ⟨rfl,rfl⟩ := doneOk more
      exact ⟨usesCons (spelledToken (by decide)) usesNone,.inl (.argsStop rfl)⟩

theorem patternRead {s : Text} {a : Text} (is : headOf t = .regexp) (form : a = "(".toList)
    (pattern : Reads env .prim ts (.str s) us)
    (more : (let close := fun toks => expect ")" toks fun toks => match env.compile s with
        | .ok passes => done (.bool passes) toks
        | .error e => fail s!"regexp {quoted s}: {e}"
      match us with
      | u::rest => if u = ",".toList then expect "$" rest close else close (u::rest)
      | [] => close []) = some (.ok (v,rest))) :
    Uses us rest ∧ Reads env .prim (t::a::ts) v rest := by
  have passed {back : List Text} (more : (match env.compile s with
      | .ok passes => done (.bool passes) back
      | .error e => fail s!"regexp {quoted s}: {e}") = some (.ok (v,rest))) :
      ∃ b, env.compile s = .ok b ∧ v = .bool b ∧ back = rest := by
    cases compiled : env.compile s with
    | error e =>
      rw [compiled] at more
      exact absurd more failNot
    | ok b =>
      rw [compiled] at more
      obtain ⟨rfl,rfl⟩ := doneOk more
      exact ⟨b,rfl,rfl,rfl⟩
  cases us with
  | nil => exact absurd more failNot
  | cons u us =>
    dsimp only at more
    by_cases comma : u = ",".toList
    · rw [if_pos comma] at more
      obtain ⟨vs,rfl,dollar⟩ := expectOk more
      obtain ⟨ws,rfl,bracket⟩ := expectOk dollar
      obtain ⟨b,passes,rfl,rfl⟩ := passed bracket
      subst comma
      refine ⟨?_,.regexpOf is form pattern rfl passes⟩
      exact usesCons (spelledToken (by decide)) (usesCons (spelledToken (by decide)) (usesCons (spelledToken (by decide)) usesNone))
    · rw [if_neg comma] at more
      obtain ⟨ws,bracket,more⟩ := expectOk more
      obtain ⟨rfl,rfl⟩ := List.cons.inj bracket
      obtain ⟨b,passes,rfl,rfl⟩ := passed more
      exact ⟨usesCons (spelledToken (by decide)) usesNone,.regexp is form pattern rfl passes⟩

theorem literalRead (form : Formed t) (plain : literalLike t = true → Unescaped t) (is : headOf t = .literal)
    (literal : literalLike t = true) (more : (if t.length < 2 ∨ t.getLast? ≠ t.head? then fail "unterminated string"
      else done (.str (t.drop 1).dropLast) ts) = some (.ok (v,rest))) : Uses (t::ts) rest ∧ Reads env .prim (t::ts) v rest := by
  by_cases ended : t.length < 2 ∨ t.getLast? ≠ t.head?
  · rw [if_pos ended] at more
    exact absurd more failNot
  · rw [if_neg ended] at more
    obtain ⟨rfl,rfl⟩ := doneOk more
    obtain ⟨q,body,rfl,quote,closed,same⟩ := form.literal literal (plain literal) ended
    have inner : ((q::(body ++ [q])).drop 1).dropLast = resolve body := by
      rw [same]
      exact List.dropLast_concat
    rw [inner]
    exact ⟨usesCons (.literal quote closed) usesNone,.literal is rfl closed⟩

theorem primRead (ih : Sound env n) (fit : Fit env .prim ts) (is : parse env (n + 1) .prim ts = some (.ok (v,rest))) :
    Read env .prim ts v rest := by
  cases ts with
  | nil => exact absurd is failNot
  | cons t ts =>
    suffices both : Uses (t::ts) rest ∧ Reads env .prim (t::ts) v rest from ⟨both.1,.inl both.2⟩
    rw [parse] at is
    by_cases paren : t = "(".toList
    · rw [if_pos paren] at is
      obtain ⟨w,us,inner,more⟩ := behindOk is
      obtain ⟨ws,rfl,more⟩ := expectOk more
      obtain ⟨rfl,rfl⟩ := doneOk more
      have read := ih (fitCall fit (.paren paren) (List.suffix_cons _ _)) inner
      have whole : Reads env .or ts w (")".toList::ws) := by
        rcases read.reads with whole | ⟨_,compared⟩
        · exact whole
        · exact absurd rfl (comparedFront compared (by decide))
      have uses : Uses (")".toList::ws) ws := usesCons (spelledToken (by decide)) usesNone
      exact ⟨usesCons (paren ▸ spelledToken (by decide)) (usesTrans read.uses uses),.paren (if_pos paren) whole rfl⟩
    rw [if_neg paren] at is
    by_cases zero : t = "$".toList
    · rw [if_pos zero] at is
      obtain ⟨rfl,rfl⟩ := doneOk is
      have head : headOf t = .zero := by rw [headOf,if_neg paren,if_pos zero]
      exact ⟨usesCons (zero ▸ spelledToken (by decide)) usesNone,.zero head⟩
    rw [if_neg zero] at is
    by_cases null : t = "nil".toList
    · rw [if_pos null] at is
      obtain ⟨rfl,rfl⟩ := doneOk is
      have head : headOf t = .nil := by rw [headOf,if_neg paren,if_neg zero,if_pos null]
      exact ⟨usesCons (null ▸ spelledToken (by decide)) usesNone,.nil head⟩
    rw [if_neg null] at is
    by_cases bool : t = "true".toList ∨ t = "false".toList
    · rw [if_pos bool] at is
      obtain ⟨rfl,rfl⟩ := doneOk is
      have head : headOf t = .bool (t = "true".toList) := by rw [headOf,if_neg paren,if_neg zero,if_neg null,if_pos bool]
      have token : Token t := by rcases bool with rfl | rfl <;> exact spelledToken (by decide)
      exact ⟨usesCons token usesNone,.bool head⟩
    rw [if_neg bool] at is
    by_cases minus : t = "-".toList
    · rw [if_pos minus] at is
      obtain ⟨w,us,inner,more⟩ := behindOk is
      obtain ⟨uses,reads⟩ := soundPrim ih (fitCall fit (.minus minus) (List.suffix_cons _ _)) inner
      have head : headOf t = .minus := by rw [headOf,if_neg paren,if_neg zero,if_neg null,if_neg bool,if_pos minus]
      cases w with
      | num x =>
        obtain ⟨rfl,rfl⟩ := doneOk more
        exact ⟨usesCons (minus ▸ spelledToken (by decide)) uses,.minus head reads⟩
      | zero | str | bool | nil => exact absurd more failNot
    rw [if_neg minus] at is
    by_cases literal : literalLike t = true
    · rw [if_pos literal] at is
      have head : headOf t = .literal := by
        rw [headOf,if_neg paren,if_neg zero,if_neg null,if_neg bool,if_neg minus,if_pos literal]
      exact literalRead (fit.formed t List.mem_cons_self) (fit.plain t ts .refl) head literal is
    rw [if_neg literal] at is
    by_cases number : numberLike t = true
    · rw [if_pos number] at is
      have head : headOf t = .number := by
        rw [headOf,if_neg paren,if_neg zero,if_neg null,if_neg bool,if_neg minus,if_neg literal,if_pos number]
      have word := (fit.formed t List.mem_cons_self).number number
      have some' : t ≠ [] := fun empty => by rw [empty] at number; cases number
      cases double : env.parseFloat t with
      | none =>
        rw [double] at is
        exact absurd is failNot
      | some x =>
        rw [double] at is
        obtain ⟨rfl,rfl⟩ := doneOk is
        exact ⟨usesCons (.word some' word) usesNone,.number head word double⟩
    rw [if_neg number] at is
    by_cases len : t = "len".toList ∨ t = "mblen".toList
    · rw [if_pos len] at is
      obtain ⟨a,rfl,dollar⟩ := expectOk is
      obtain ⟨b,rfl,bracket⟩ := expectOk dollar
      obtain ⟨c,rfl,end'⟩ := expectOk bracket
      obtain ⟨rfl,rfl⟩ := doneOk end'
      have head : headOf t = .len := by
        rw [headOf,if_neg paren,if_neg zero,if_neg null,if_neg bool,if_neg minus,if_neg literal,if_neg number,if_pos len]
      have token : Token t := by rcases len with rfl | rfl <;> exact spelledToken (by decide)
      refine ⟨usesCons token (usesCons (spelledToken (by decide)) ?_),.len head rfl⟩
      exact usesCons (spelledToken (by decide)) (usesCons (spelledToken (by decide)) usesNone)
    rw [if_neg len] at is
    by_cases regexp : t = "regexp".toList
    · rw [if_pos regexp] at is
      obtain ⟨us,rfl,more⟩ := expectOk is
      obtain ⟨w,ws,inner,more⟩ := behindOk more
      have behind' : us <:+ t::"(".toList::us := (List.suffix_cons _ _).trans (List.suffix_cons _ _)
      obtain ⟨uses,reads⟩ := soundPrim ih (fitCall fit (.pattern regexp rfl) behind') inner
      have head : headOf t = .regexp := by
        rw [headOf,if_neg paren,if_neg zero,if_neg null,if_neg bool,if_neg minus,if_neg literal,if_neg number,if_neg len,
          if_pos regexp]
      cases w with
      | str s =>
        obtain ⟨back,whole⟩ := patternRead head rfl reads more
        have bracket : Uses ("(".toList::us) us := usesCons (spelledToken (by decide)) usesNone
        exact ⟨usesCons (regexp ▸ spelledToken (by decide)) (usesTrans bracket (usesTrans uses back)),whole⟩
      | zero | num | bool | nil => exact absurd more failNot
    rw [if_neg regexp] at is
    by_cases check : t = "email".toList ∨ t = "phone".toList
    · rw [if_pos check] at is
      obtain ⟨a,rfl,dollar⟩ := expectOk is
      obtain ⟨us,rfl,args⟩ := expectOk dollar
      have behind' : us <:+ t::"(".toList::"$".toList::us :=
        ((List.suffix_cons _ _).trans (List.suffix_cons _ _)).trans (List.suffix_cons _ _)
      have read := ih (fitCall fit (.check check rfl) behind') args
      have reads : Reads env .args us v rest := read.reads.elim id fun loose => absurd loose.1 id
      have head : headOf t = .check := by
        rw [headOf,if_neg paren,if_neg zero,if_neg null,if_neg bool,if_neg minus,if_neg literal,if_neg number,if_neg len,
          if_neg regexp,if_pos check]
      have token : Token t := by rcases check with rfl | rfl <;> exact spelledToken (by decide)
      refine ⟨usesCons token (usesCons (spelledToken (by decide)) ?_),.check head rfl reads⟩
      exact usesCons (spelledToken (by decide)) read.uses
    rw [if_neg check] at is
    exact absurd is failNot

theorem parseRead (n : Nat) : Sound env n := by
  induction n with
  | zero => exact fun _ is => nomatch is
  | succ n ih =>
    intro g ts v rest fit is
    cases g with
    | or => exact orRead ih fit is
    | orRest l => exact orRestRead ih fit is
    | and => exact andRead ih fit is
    | andRest l => exact andRestRead ih fit is
    | not => exact notRead ih fit is
    | cmp => exact cmpRead ih fit is
    | prim => exact primRead ih fit is
    | args => exact argsRead ih fit is

end Sound
section Answers
variable {env : Env} {s : Text} {b : Bool}

theorem zeroPassesOk (answer : zeroPasses env s = some (.ok b)) :
    parse env (8*(vdTokens 0 s).length + 8) .or (vdTokens 0 s) = some (.ok (.bool b,[])) := by
  unfold zeroPasses at answer
  dsimp only at answer
  split at answer
  · cases answer
  · cases answer
  · cases answer
  · rename_i is
    cases answer
    exact is
  · cases answer

theorem denotesOne {v w : Val} (is : Denotes env s v) (other : Denotes env s w) : v = w := by
  obtain ⟨ts,lexes,reads⟩ := is
  obtain ⟨us,lexes',reads'⟩ := other
  obtain rfl := (lexesTokens lexes).symm.trans (lexesTokens lexes')
  exact (readsOne reads reads').1

theorem answerDenotes (plain : Plain env .or (vdTokens 0 s)) (tight : Tight env .or (vdTokens 0 s))
    (answer : zeroPasses env s = some (.ok b)) : Denotes env s (.bool b) := by
  have read := parseRead _ ⟨tokensFormed 0 s,plain,tight⟩ (zeroPassesOk answer)
  obtain ⟨used,same,every⟩ := read.uses
  rw [List.append_nil] at same
  refine ⟨vdTokens 0 s,tokensLex s (same ▸ every),?_⟩
  rcases read.reads with whole | ⟨_,_,_,front,_⟩
  · exact whole
  · cases front

theorem zeroPassesRight (env : Env) (s : Text) : (∃ reply, zeroPasses env s = some reply) ∧
    (Plain env .or (vdTokens 0 s) → Tight env .or (vdTokens 0 s) → Right env s) := by
  refine ⟨zeroPassesEnds env s,fun plain tight b answer v => ?_⟩
  have denotes := answerDenotes plain tight answer
  exact ⟨fun other => denotesOne other denotes,fun same => same ▸ denotes⟩

def bare : Env where
  parseFloat _ := none
  compile _ := .error ""

theorem literalUnary {t : Text} {us : List Text} {q : Char} {body : Text} (is : headOf t = .literal) (form : t = q::(body ++ [q]))
    (closed : Closed q body) : Reads env .unary (t::us) (.str (resolve body)) us :=
  primUnary (.literal is form closed)

def guarded : Text := "!($=='a') || $==nil".toList

def guardedTokens : List Text := ["!","(","$","==","'a'",")","||","$","==","nil"].map String.toList

theorem guardedPlain : Plain bare .or guardedTokens := by
  intro t rest comes literal
  have every : ∀ t ∈ guardedTokens, literalLike t = true → '\\' ∉ t := by decide
  have apart := every t ((comesSuffix comes).subset List.mem_cons_self) literal
  intro c special inside
  exact apart (inside.subset List.mem_cons_self)

theorem guardedTight : Tight bare .or guardedTokens := by
  intro back v rest comes reads
  obtain ⟨front,same⟩ : "!".toList::back <:+ guardedTokens := comesSuffix comes
  have only : front = [] := by
    cases front with
    | nil => rfl
    | cons t front =>
      have inner : "!".toList ∈ guardedTokens.tail := by
        rw [← same]
        exact List.mem_append_right front List.mem_cons_self
      exact absurd inner (by decide)
  subst only
  obtain ⟨-,rfl⟩ := List.cons.inj same
  have none' (k : Bool) : Stops k (")".toList::["||","$","==","nil"].map String.toList) := by
    intro t op front is
    cases front
    cases is
  have stop : Stops false (["==","'a'",")","||","$","==","nil"].map String.toList) := by
    intro t op front is
    cases front
    cases is
    decide
  have zero : Reads bare .unary _ .zero (["==","'a'",")","||","$","==","nil"].map String.toList) :=
    primUnary (.zero (t := "$".toList) (by decide))
  have letter : Reads bare .unary _ (.str (resolve ['a'])) (")".toList::["||","$","==","nil"].map String.toList) :=
    literalUnary (t := "'a'".toList) (by decide) rfl (.char (by decide) (by decide) .nil)
  have value : Compares .zero .eq (.str (resolve ['a'])) (cmpOrdered (T := Text) [] .eq (resolve ['a'])) := .zeroLeft .str .str
  have compared : Reads bare .or (["$","==","'a'",")","||","$","==","nil"].map String.toList) _
      (")".toList::["||","$","==","nil"].map String.toList) :=
    .or (.and (.eq (.rel zero (.relStop stop))
      (.eqMore (by decide) rfl (.rel letter (.relStop (none' false))) value (.eqStop (none' true)))) (.andStop (by decide)))
      (.orStop (by decide))
  have operand := primUnary (.paren (t := "(".toList) (by decide) compared rfl)
  obtain ⟨-,rfl⟩ := readsOne reads operand
  rintro ⟨t,op,front,is⟩
  cases front
  cases is

theorem guardedRight : zeroPasses bare guarded = some (.ok true) ∧ Denotes bare guarded (.bool true) := by
  have tokens : vdTokens 0 guarded = guardedTokens := by decide +kernel
  have answer : zeroPasses bare guarded = some (.ok true) := by decide +kernel
  have right := (zeroPassesRight bare guarded).2 (tokens ▸ guardedPlain) (tokens ▸ guardedTight)
  exact ⟨answer,(right true answer _).mpr rfl⟩

theorem bangZero {us ws : List Text} {v : Val} : ¬ Reads env .or ("!".toList::"$".toList::us) v ws := by
  intro reads
  cases reads with | or ands _ =>
  cases ands with | and eqs _ =>
  obtain ⟨_,_,operand,_⟩ := eqOperand eqs
  have zero : headOf "$".toList = .zero := by decide
  have other : "$".toList ≠ "!".toList := by decide
  cases operand with
  | unary no => exact no rfl
  | unaryNot _ inner =>
    cases inner with
    | unaryNot is => exact other is
    | unary _ prim =>
      generalize is : "$".toList = t at prim zero
      cases prim with
      | paren no | bool no | regexp no | regexpOf no | check no => cases zero.symm.trans no

def escaped : Text := "'\\''==\"'\"".toList

theorem escapedDenotes : Denotes bare escaped (.bool true) := by
  have tokens : vdTokens 0 escaped = ["'\\''".toList,"==".toList,"\"'\"".toList] := by decide +kernel
  have first : "'\\''".toList = '\''::(['\\','\''] ++ ['\'']) := by decide +kernel
  have last : "\"'\"".toList = '"'::(['\''] ++ ['"']) := by decide +kernel
  have closed : Closed '\'' ['\\','\''] := .pair .nil
  have closed' : Closed '"' ['\''] := .char (by decide) (by decide) .nil
  have same : Compares (.str ['\'']) .eq (.str ['\'']) true := by
    have holds : cmpOrdered (T := Text) ['\''] .eq ['\''] = true := by simp only [cmpOrdered,decide_true]
    exact holds ▸ .str
  refine ⟨_,tokensLex escaped ?_,?_⟩
  · rw [tokens]
    intro t mem
    rcases List.mem_cons.mp mem with rfl | mem
    · exact first ▸ .literal (by decide) closed
    · rcases List.mem_cons.mp mem with rfl | mem
      · exact spelledToken (by decide)
      · obtain rfl := List.mem_singleton.mp mem
        exact last ▸ .literal (by decide) closed'
  · rw [tokens]
    have left : Reads bare .unary _ (.str ['\'']) ["==".toList,"\"'\"".toList] := literalUnary (by decide +kernel) first closed
    have right : Reads bare .unary _ (.str ['\'']) [] := literalUnary (by decide +kernel) last closed'
    have none (k : Bool) : Stops k [] := fun _ _ front => nomatch front
    have stop : Stops false ["==".toList,"\"'\"".toList] := by
      intro t op front is
      cases front
      cases is
      decide
    have is : opOf "==".toList = some .eq := by decide
    have behind' : Reads bare (.eqRest _) _ _ [] := .eqMore is rfl (.rel right (.relStop (none _))) same (.eqStop (none _))
    exact .or (.and (.eq (.rel left (.relStop stop)) behind') (.andStop nofun)) (.orStop nofun)

theorem passesWrong :
    zeroPasses bare escaped = some (.ok false) ∧ Denotes bare escaped (.bool true) ∧ ¬ Right bare escaped ∧
      zeroPasses bare "!$==true".toList = some (.ok true) ∧ ¬ Right bare "!$==true".toList := by
  have raw : zeroPasses bare escaped = some (.ok false) := by decide +kernel
  have loose : zeroPasses bare "!$==true".toList = some (.ok true) := by decide +kernel
  have tokens : vdTokens 0 "!$==true".toList = ["!".toList,"$".toList,"==".toList,"true".toList] := by decide +kernel
  refine ⟨raw,escapedDenotes,fun right => ?_,loose,fun right => ?_⟩
  · cases (right false raw (.bool true)).mp escapedDenotes
  · obtain ⟨ts,lexes,reads⟩ := (right true loose (.bool true)).mpr rfl
    rw [← lexesTokens lexes,tokens] at reads
    exact bangZero reads

end Answers
end DevkitCommon.Apidoc.Expressions
