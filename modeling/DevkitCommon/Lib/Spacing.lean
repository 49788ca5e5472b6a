import DevkitCommon.Lib.Words

/-! The blanks of a text. A text is written from its characters that are no blanks, each with
whether one blank stands before it; fields joined again are such a text, and the replacements
that close a blank beside a character only take blanks away. -/
namespace DevkitCommon.Words

abbrev Mark := Bool × Char

def write (l : List Mark) : Text := l.flatMap (fun m => if m.1 then [' ',m.2] else [m.2])

def marks : Bool → Bool → Text → List Mark
  | _,_,[] => []
  | after,gap,c::rest => if space c then marks after true rest else (after && gap,c)::marks true false rest

def closeAfter (d : Char) : Bool → List Mark → List Mark
  | _,[] => []
  | last,(gap,c)::rest => (gap && !last,c)::closeAfter d (c == d) rest

def closeBefore (d : Char) (l : List Mark) : List Mark := l.map (fun m => (m.1 && m.2 != d,m.2))

def Plain (l : List Mark) : Prop := ∀ m ∈ l, space m.2 = false

section Write

theorem writeCons (gap : Bool) (c : Char) (l : List Mark) :
    write ((gap,c)::l) = (if gap then [' '] else []) ++ c::write l := by
  cases gap <;> rfl

theorem plainCons {m : Mark} {l : List Mark} (plain : Plain (m::l)) : space m.2 = false ∧ Plain l :=
  ⟨plain m List.mem_cons_self,fun n mem => plain n (List.mem_cons_of_mem m mem)⟩

theorem plainBlank {c : Char} (plain : space c = false) : c ≠ ' ' := by
  rintro rfl
  exact absurd plain (by decide)

theorem writeInjective {l k : List Mark} (plain : Plain l) (plain' : Plain k) (same : write l = write k) : l = k := by
  induction l generalizing k with
  | nil =>
    cases k with
    | nil => rfl
    | cons m k =>
      obtain ⟨gap,c⟩ := m
      rw [writeCons] at same
      exact absurd (List.append_eq_nil_iff.mp same.symm).2 (List.cons_ne_nil _ _)
  | cons m l ih =>
    obtain ⟨gap,c⟩ := m
    obtain ⟨head,rest⟩ := plainCons plain
    cases k with
    | nil =>
      rw [writeCons] at same
      exact absurd (List.append_eq_nil_iff.mp same).2 (List.cons_ne_nil _ _)
    | cons n k =>
      obtain ⟨gap',d⟩ := n
      obtain ⟨head',rest'⟩ := plainCons plain'
      rw [writeCons,writeCons] at same
      cases gap with
      | true =>
        cases gap' with
        | true =>
          obtain ⟨rfl,tail⟩ := List.cons.inj (List.cons.inj same).2
          rw [ih rest rest' tail]
        | false => exact absurd (List.cons.inj same).1.symm (plainBlank head')
      | false =>
        cases gap' with
        | true => exact absurd (List.cons.inj same).1 (plainBlank head)
        | false =>
          obtain ⟨rfl,tail⟩ := List.cons.inj same
          rw [ih rest rest' tail]

end Write

section Marks

theorem marksPlain (after gap : Bool) (t : Text) : Plain (marks after gap t) := by
  induction t generalizing after gap with
  | nil => exact fun m mem => absurd mem List.not_mem_nil
  | cons c t ih =>
    unfold marks
    split
    · exact ih after true
    · rename_i letter
      intro m mem
      rcases List.mem_cons.mp mem with rfl | later
      · exact Bool.eq_false_iff.mpr letter
      · exact ih true false m later

theorem closeAfterPlain {d : Char} {l : List Mark} (last : Bool) (plain : Plain l) : Plain (closeAfter d last l) := by
  induction l generalizing last with
  | nil => exact plain
  | cons m l ih =>
    obtain ⟨head,rest⟩ := plainCons plain
    intro n mem
    rcases List.mem_cons.mp mem with rfl | later
    · exact head
    · exact ih _ rest n later

theorem closeBeforePlain {d : Char} {l : List Mark} (plain : Plain l) : Plain (closeBefore d l) := by
  intro n mem
  obtain ⟨m,inside,rfl⟩ := List.mem_map.mp mem
  exact plain m inside

theorem marksGap (gap : Bool) (t : Text) : marks false gap t = marks false false t := by
  cases t with
  | nil => rfl
  | cons c t => rfl

theorem marksTrim (t : Text) : marks false false (trimSpace t) = marks false false t := by
  have left (t : Text) : marks false false (t.dropWhile space) = marks false false t := by
    induction t with
    | nil => rfl
    | cons c t ih =>
      cases blank : space c with
      | true => rw [List.dropWhile_cons_of_pos blank,ih,marks,if_pos blank,marksGap true t]
      | false => rw [List.dropWhile_cons_of_neg (Bool.eq_false_iff.mp blank)]
  have right (after gap : Bool) (t s : Text) (blanks : ∀ c ∈ s, space c = true) :
      marks after gap (t ++ s) = marks after gap t := by
    induction t generalizing after gap with
    | nil =>
      induction s generalizing gap with
      | nil => rfl
      | cons c s ih =>
        have skips : marks after gap (c::s) = marks after true s := if_pos (blanks c List.mem_cons_self)
        exact skips.trans (ih (fun d mem => blanks d (List.mem_cons_of_mem c mem)) true)
    | cons c t ih =>
      rw [List.cons_append,marks,marks]
      split
      · exact ih after true
      · rw [ih true false]
  have cut : (t.dropWhile space) = trimSpace t ++ (t.dropWhile space).rtakeWhile space :=
    List.rdropWhile_append_rtakeWhile.symm
  rw [← left t,cut,right false false (trimSpace t) _ (fun c mem => List.mem_rtakeWhile_imp mem)]

theorem marksWrite {l : List Mark} (plain : Plain l) : marks true false (write l) = l := by
  induction l with
  | nil => rfl
  | cons m l ih =>
    obtain ⟨gap,c⟩ := m
    obtain ⟨head,rest⟩ := plainCons plain
    have takes (gap : Bool) : marks true gap (c::write l) = (gap,c)::l := by
      have step : marks true gap (c::write l) = (true && gap,c)::marks true false (write l) := if_neg (Bool.eq_false_iff.mp head)
      rw [step,ih rest,Bool.true_and]
    rw [writeCons]
    cases gap with
    | false => exact takes false
    | true => exact (if_pos rfl : marks true false (' '::c::write l) = marks true true (c::write l)).trans (takes true)

def Tight (l : List Mark) : Prop := ∀ m, l.head? = some m → m.1 = false

theorem marksTight (gap : Bool) (t : Text) : Tight (marks false gap t) := by
  induction t generalizing gap with
  | nil => exact fun m first => absurd first (by simp [marks])
  | cons c t ih =>
    unfold marks
    split
    · exact ih true
    · intro m first
      cases Option.some.inj first
      rfl

theorem closeAfterTight {d : Char} {l : List Mark} (tight : Tight l) : Tight (closeAfter d false l) := by
  cases l with
  | nil => exact tight
  | cons m l =>
    intro n first
    cases Option.some.inj first
    rw [Bool.not_false,Bool.and_true]
    exact tight m rfl

theorem closeBeforeTight {d : Char} {l : List Mark} (tight : Tight l) : Tight (closeBefore d l) := by
  cases l with
  | nil => exact tight
  | cons m l =>
    intro n first
    cases Option.some.inj first
    exact Bool.and_eq_false_iff.mpr (.inl (tight m rfl))

theorem writeFirst {l : List Mark} (plain : Plain l) (tight : Tight l) : ∀ c, (write l).head? = some c → space c = false := by
  intro c first
  cases l with
  | nil => exact absurd first (by simp [write])
  | cons m l =>
    obtain ⟨gap,d⟩ := m
    have none' : gap = false := tight (gap,d) rfl
    subst none'
    cases Option.some.inj first
    exact (plainCons plain).1

theorem writeLast {l : List Mark} (plain : Plain l) : ∀ c, (write l).getLast? = some c → space c = false := by
  intro c last
  obtain rfl | ⟨front,m,rfl⟩ := List.eq_nil_or_concat l
  · exact absurd last (by simp [write])
  · have ends : (write (front.concat m)).getLast? = some m.2 := by
      rw [List.concat_eq_append,write,List.flatMap_append,List.flatMap_singleton,List.getLast?_append]
      cases m.1 <;> rfl
    cases Option.some.inj (ends.symm.trans last)
    exact plain m (by simp)

theorem writeTrim {l : List Mark} (plain : Plain l) (tight : Tight l) : trimSpace (write l) = write l :=
  trimEdges (writeFirst plain tight) (writeLast plain)

theorem marksTightWrite {l : List Mark} (plain : Plain l) (tight : Tight l) : marks false false (write l) = l := by
  cases l with
  | nil => rfl
  | cons m l =>
    obtain ⟨gap,c⟩ := m
    obtain ⟨head,rest⟩ := plainCons plain
    have none' : gap = false := tight (gap,c) rfl
    subst none'
    have step : marks false false (c::write l) = (false,c)::marks true false (write l) := if_neg (Bool.eq_false_iff.mp head)
    exact step.trans (congrArg (List.cons (false,c)) (marksWrite rest))

end Marks

section Fields

theorem joinCons (f : Text) (fs : List Text) : join (f::fs) = f ++ fs.flatMap (fun g => ' '::g) := by
  induction fs generalizing f with
  | nil => simp [join]
  | cons g fs ih =>
    have next : join (f::g::fs) = f ++ ' '::join (g::fs) := by simp [join]
    rw [next,ih g,List.flatMap_cons,List.cons_append]

def spaced (ps : List Text) : Text := (ps.filter (fun f => f != [])).flatMap (fun f => ' '::f)

theorem writeInside (t : Text) : (∃ p ps, t.splitOnP space = p::ps ∧ write (marks true false t) = p ++ spaced ps) ∧
    write (marks true true t) = spaced (t.splitOnP space) := by
  induction t with
  | nil => exact ⟨⟨[],[],rfl,rfl⟩,rfl⟩
  | cons c t ih =>
    obtain ⟨⟨p,ps,pieces,inside⟩,behind⟩ := ih
    cases blank : space c with
    | true =>
      have cut : (c::t).splitOnP space = []::t.splitOnP space := by rw [List.splitOnP_cons_eq_if_modifyHead,if_pos blank]
      have skips (gap : Bool) : marks true gap (c::t) = marks true true t := if_pos blank
      refine ⟨⟨[],t.splitOnP space,cut,by rw [skips,behind,List.nil_append]⟩,?_⟩
      rw [skips,behind,cut]
      rfl
    | false =>
      have letter : ¬ space c = true := Bool.eq_false_iff.mp blank
      have cut : (c::t).splitOnP space = (c::p)::ps := by
        rw [List.splitOnP_cons_eq_if_modifyHead,if_neg letter,pieces]
        rfl
      have takes (gap : Bool) : marks true gap (c::t) = (true && gap,c)::marks true false t := if_neg letter
      refine ⟨⟨c::p,ps,cut,?_⟩,?_⟩
      · rw [takes,writeCons,inside]
        rfl
      · rw [takes,writeCons,inside,cut]
        rfl

theorem joinFields (t : Text) : join (fields t) = write (marks false false t) := by
  induction t with
  | nil => rfl
  | cons c t ih =>
    cases blank : space c with
    | true =>
      have cut : fields (c::t) = fields t := by
        rw [fields,List.splitOnP_cons_eq_if_modifyHead,if_pos blank]
        rfl
      have skips : marks false false (c::t) = marks false true t := if_pos blank
      rw [cut,skips,marksGap true t,ih]
    | false =>
      have letter : ¬ space c = true := Bool.eq_false_iff.mp blank
      obtain ⟨⟨p,ps,pieces,inside⟩,-⟩ := writeInside t
      have cut : fields (c::t) = (c::p)::ps.filter (fun f => f != []) := by
        rw [fields,List.splitOnP_cons_eq_if_modifyHead,if_neg letter,pieces]
        rfl
      have takes : marks false false (c::t) = (false,c)::marks true false t := if_neg letter
      rw [cut,joinCons,takes,writeCons,inside]
      rfl

end Fields

section Replace

theorem replaceCons {old new rest : Text} {c d : Char} (other : d ≠ c) :
    replaceAll (d::old) new (c::rest) = c::replaceAll (d::old) new rest := by
  have no : ¬ (d::old).isPrefixOf (c::rest) = true := by simp [List.isPrefixOf,other]
  exact if_neg no

theorem replaceMark {d c : Char} {rest : Text} (solid : d ≠ ' ') (gap : Bool) :
    replaceAll [d,' '] [d] ((if gap then [' '] else []) ++ c::rest) =
      (if gap then [' '] else []) ++ replaceAll [d,' '] [d] (c::rest) := by
  cases gap with
  | false => rfl
  | true => exact replaceCons solid

theorem replaceLetter {d c : Char} {l : List Mark} (solid : d ≠ ' ') (letter : space c = false) (plain : Plain l) :
    replaceAll [d,' '] [d] (c::write l) = c::write (closeAfter d (c == d) l) := by
  induction l generalizing c with
  | nil =>
    have no : ¬ [d,' '].isPrefixOf [c] = true := by simp [List.isPrefixOf]
    exact if_neg no
  | cons m l ih =>
    obtain ⟨gap,e⟩ := m
    obtain ⟨head,rest⟩ := plainCons plain
    have next := ih head rest
    by_cases same : c = d
    · subst same
      rw [beq_self_eq_true,closeAfter,Bool.not_true,Bool.and_false,writeCons,writeCons]
      cases gap with
      | true =>
        have yes : [c,' '].isPrefixOf (c:: ' '::e::write l) = true := by simp [List.isPrefixOf]
        have taken : replaceAll [c,' '] [c] (c:: ' '::e::write l) = c::replaceAll [c,' '] [c] (e::write l) := if_pos yes
        exact taken.trans (congrArg (List.cons c) next)
      | false =>
        have no : ¬ [c,' '].isPrefixOf (c::e::write l) = true := by simp [List.isPrefixOf,(plainBlank head).symm]
        have left : replaceAll [c,' '] [c] (c::e::write l) = c::replaceAll [c,' '] [c] (e::write l) := if_neg no
        exact left.trans (congrArg (List.cons c) next)
    · have other : (c == d) = false := beq_eq_false_iff_ne.mpr same
      rw [other,closeAfter,Bool.not_false,Bool.and_true,writeCons,writeCons,
        replaceCons (Ne.symm same),
        replaceMark solid,next]

theorem replaceAfter {d : Char} (solid : d ≠ ' ') {l : List Mark} (plain : Plain l) :
    replaceAll [d,' '] [d] (write l) = write (closeAfter d false l) := by
  cases l with
  | nil => rfl
  | cons m l =>
    obtain ⟨gap,c⟩ := m
    obtain ⟨head,rest⟩ := plainCons plain
    rw [closeAfter,Bool.not_false,Bool.and_true,writeCons,writeCons,replaceMark solid,replaceLetter solid head rest]

theorem replaceBefore {d : Char} {l : List Mark} (plain : Plain l) :
    replaceAll [' ',d] [d] (write l) = write (closeBefore d l) := by
  induction l with
  | nil => rfl
  | cons m l ih =>
    obtain ⟨gap,c⟩ := m
    obtain ⟨head,rest⟩ := plainCons plain
    have passes : replaceAll [' ',d] [d] (c::write l) = c::write (closeBefore d l) := by
      rw [replaceCons (plainBlank head).symm,ih rest]
    have whole : closeBefore d ((gap,c)::l) = (gap && c != d,c)::closeBefore d l := rfl
    rw [whole,writeCons,writeCons]
    cases gap with
    | false => exact passes
    | true =>
      by_cases same : c = d
      · have taken : replaceAll [' ',d] [d] (' '::c::write l) = c::replaceAll [' ',d] [d] (write l) := by
          subst same
          have yes : [' ',c].isPrefixOf (' '::c::write l) = true := by simp [List.isPrefixOf]
          exact if_pos yes
        have shut : (true && c != d) = false := by simp [same]
        rw [shut]
        exact taken.trans (by rw [ih rest]; rfl)
      · have opens : (true && c != d) = true := by simp [same]
        have no : ¬ [' ',d].isPrefixOf (' '::c::write l) = true := by
          simp [List.isPrefixOf,Ne.symm same]
        have left : replaceAll [' ',d] [d] (' '::c::write l) = ' '::replaceAll [' ',d] [d] (c::write l) := if_neg no
        rw [opens]
        exact left.trans (by rw [passes]; rfl)

end Replace

end DevkitCommon.Words
