import Mathlib.Data.List.DropRight
import Mathlib.Data.List.Infix

/-! Texts as lists of characters, with the functions on them that a Go program uses: blanks,
case, fields, joins and replacements. -/
namespace DevkitCommon.Words

abbrev Text := List Char

instance textLawful : LawfulBEq Text := inferInstance

def space (c : Char) : Bool :=
  let n := c.toNat
  decide (0x09 ≤ n ∧ n ≤ 0x0D) || n == 0x20 || n == 0x85 || n == 0xA0 || n == 0x1680 ||
    decide (0x2000 ≤ n ∧ n ≤ 0x200A) || n == 0x2028 || n == 0x2029 || n == 0x202F || n == 0x205F || n == 0x3000

def trimLeft (p : Char → Bool) (t : Text) : Text := t.dropWhile p
def trimRight (p : Char → Bool) (t : Text) : Text := (t.reverse.dropWhile p).reverse

def trim (p : Char → Bool) (t : Text) : Text := trimRight p (trimLeft p t)

def trimSpace (t : Text) : Text := trim space t

/- The cases of the letters beyond ASCII: two of them get a lower case in it and two an upper case. -/
class Letters where
  lower : Char → Char
  upper : Char → Char
  lowerFar : ∀ c, 128 ≤ c.toNat → 128 ≤ (lower c).toNat ∨ c = Char.ofNat 0x212A ∧ lower c = 'k' ∨
    c = Char.ofNat 0x130 ∧ lower c = 'i'
  upperFar : ∀ c, 128 ≤ c.toNat → 128 ≤ (upper c).toNat ∧ upper (upper c) = upper c ∨
    c = Char.ofNat 0x131 ∧ upper c = 'I' ∨ c = Char.ofNat 0x17F ∧ upper c = 'S'
  lowerSpace : ∀ c, 128 ≤ c.toNat → space (lower c) = space c
  upperSpace : ∀ c, 128 ≤ c.toNat → space (upper c) = space c

/- No others have a case: what lower or upper case is then compared with is a text of ASCII. -/
instance fourLetters : Letters where
  lower c := if c = Char.ofNat 0x212A then 'k' else if c = Char.ofNat 0x130 then 'i' else c
  upper c := if c = Char.ofNat 0x131 then 'I' else if c = Char.ofNat 0x17F then 'S' else c
  lowerFar c far := by
    split
    · exact .inr (.inl ⟨‹_›,rfl⟩)
    split
    · exact .inr (.inr ⟨‹_›,rfl⟩)
    · exact .inl far
  upperFar c far := by
    by_cases dotless : c = Char.ofNat 0x131
    · exact .inr (.inl ⟨dotless,if_pos dotless⟩)
    by_cases long : c = Char.ofNat 0x17F
    · exact .inr (.inr ⟨long,by rw [if_neg dotless,if_pos long]⟩)
    · simp [dotless,long,far]
  lowerSpace c _ := by
    split
    · rename_i kelvin
      rw [kelvin]
      decide
    split
    · rename_i dotted
      rw [dotted]
      decide
    · rfl
  upperSpace c _ := by
    split
    · rename_i dotless
      rw [dotless]
      decide
    split
    · rename_i long
      rw [long]
      decide
    · rfl

section Cases
variable [Letters]

def lowerChar (c : Char) : Char := if c.toNat < 128 then c.toLower else Letters.lower c

def toLower (t : Text) : Text := t.map lowerChar

def upperChar (c : Char) : Char := if c.toNat < 128 then c.toUpper else Letters.upper c

def toUpper (t : Text) : Text := t.map upperChar

end Cases

def byteLength : Text → Nat
  | [] => 0
  | c::rest => c.utf8Size + byteLength rest

def foldChar (c : Char) : Char :=
  if c = Char.ofNat 0x212A then 'k' else if c = Char.ofNat 0x17F then 's' else c.toLower

def equalFold (a b : Text) : Bool := a.map foldChar == b.map foldChar

def fields (t : Text) : List Text := (t.splitOnP space).filter (fun f => f != [])

def join (parts : List Text) : Text := [' '].intercalate parts

def replaceFrom (old new : Text) : Nat → Text → Text
  | _, [] => []
  | skip+1, _::rest => replaceFrom old new skip rest
  | 0, c::rest =>
    if old.isPrefixOf (c::rest) then new ++ replaceFrom old new (old.length-1) rest else c::replaceFrom old new 0 rest

def replaceAll (old new t : Text) : Text := replaceFrom old new 0 t

def contains (t sub : Text) : Bool := decide (sub <:+: t)

def hasSuffix (t suffix : Text) : Bool := suffix.isSuffixOf t

theorem forASCII {p : Char → Prop} (all : ∀ n < 128, p (Char.ofNat n)) {c : Char} (ascii : c.toNat < 128) : p c :=
  Char.ofNat_toNat c ▸ all c.toNat ascii

section Cases
variable [Letters] {c : Char}

theorem lowerASCII (ascii : c.toNat < 128) : lowerChar c = c.toLower := if_pos ascii

theorem upperASCII (ascii : c.toNat < 128) : upperChar c = c.toUpper := if_pos ascii

theorem lowerCases (c : Char) : c.toNat < 128 ∨ 128 ≤ (lowerChar c).toNat ∨ lowerChar c = 'k' ∨ lowerChar c = 'i' := by
  by_cases ascii : c.toNat < 128
  · exact .inl ascii
  rw [lowerChar,if_neg ascii]
  obtain far | ⟨-,kelvin⟩ | ⟨-,dotted⟩ := Letters.lowerFar c (Nat.le_of_not_lt ascii)
  · exact .inr (.inl far)
  · exact .inr (.inr (.inl kelvin))
  · exact .inr (.inr (.inr dotted))

theorem upperTwice (c : Char) : upperChar (upperChar c) = upperChar c := by
  by_cases ascii : c.toNat < 128
  · have small : c.toUpper.toNat < 128 := forASCII (p := fun c => c.toUpper.toNat < 128) (by decide) ascii
    rw [upperASCII ascii,upperASCII small]
    exact forASCII (p := fun c => c.toUpper.toUpper = c.toUpper) (by decide) ascii
  have up : upperChar c = Letters.upper c := if_neg ascii
  rw [up]
  obtain ⟨far,twice⟩ | ⟨-,dotless⟩ | ⟨-,long⟩ := Letters.upperFar c (Nat.le_of_not_lt ascii)
  · rw [upperChar,if_neg (Nat.not_lt.mpr far),twice]
  · rw [dotless,upperASCII (by decide)]
    rfl
  · rw [long,upperASCII (by decide)]
    rfl

theorem spaceUpper (c : Char) : space (upperChar c) = space c := by
  by_cases ascii : c.toNat < 128
  · rw [upperASCII ascii]
    exact forASCII (p := fun c => space c.toUpper = space c) (by decide) ascii
  · rw [upperChar,if_neg ascii]
    exact Letters.upperSpace c (Nat.le_of_not_lt ascii)

theorem spaceLower (c : Char) : space (lowerChar c) = space c := by
  by_cases ascii : c.toNat < 128
  · rw [lowerASCII ascii]
    exact forASCII (p := fun c => space c.toLower = space c) (by decide) ascii
  · rw [lowerChar,if_neg ascii]
    exact Letters.lowerSpace c (Nat.le_of_not_lt ascii)

end Cases

theorem trimLeftMap {p : Char → Bool} {f : Char → Char} (same : ∀ c, p (f c) = p c) (t : Text) :
    trimLeft p (t.map f) = (trimLeft p t).map f := by
  have whole : p ∘ f = p := funext same
  simp only [trimLeft,List.dropWhile_map,whole]

theorem trimMap {p : Char → Bool} {f : Char → Char} (same : ∀ c, p (f c) = p c) (t : Text) :
    trim p (t.map f) = (trim p t).map f := by
  have left := trimLeftMap same
  simp only [trimLeft] at left
  simp only [trim,trimRight,trimLeft,left,← List.map_reverse]

theorem trimEdges {p : Char → Bool} {t : Text} (first : ∀ c, t.head? = some c → p c = false)
    (last : ∀ c, t.getLast? = some c → p c = false) : trim p t = t := by
  have left : t.dropWhile p = t := by
    cases t with
    | nil => rfl
    | cons c rest => exact List.dropWhile_cons_of_neg (by simp [first c rfl])
  have right : t.reverse.dropWhile p = t.reverse := by
    cases back : t.reverse with
    | nil => rfl
    | cons c rest =>
      have ends : t.getLast? = some c := by rw [List.getLast?_eq_head?_reverse,back,List.head?_cons]
      exact List.dropWhile_cons_of_neg (by simp [last c ends])
  rw [trim,trimLeft,left,trimRight,right,List.reverse_reverse]

theorem trimPlain {p : Char → Bool} {t : Text} (plain : ∀ c ∈ t, p c = false) : trim p t = t :=
  trimEdges (fun c first => plain c (List.mem_of_mem_head? first)) (fun c last => plain c (List.mem_of_getLast? last))

theorem trimBlank {p : Char → Bool} {t : Text} {c : Char} (blank : p c = true) : trim p (t ++ [c]) = trim p t := by
  have whole (u : Text) : trim p u = (u.dropWhile p).rdropWhile p := rfl
  rw [whole,whole,List.dropWhile_append]
  split
  · rename_i empty
    rw [List.isEmpty_iff.mp empty,List.dropWhile_cons_of_pos blank]
    rfl
  · rw [List.rdropWhile_concat_pos _ _ _ blank]

theorem trimRightAfter (p : Char → Bool) (a t : Text) :
    trimRight p (a ++ t) = if trimRight p t = [] then trimRight p a else a ++ trimRight p t := by
  rw [trimRight,List.reverse_append,List.dropWhile_append]
  have empty : (t.reverse.dropWhile p).isEmpty = true ↔ trimRight p t = [] := by
    rw [List.isEmpty_iff,trimRight,List.reverse_eq_nil_iff]
  rw [if_congr empty rfl rfl]
  split
  · rfl
  · rw [List.reverse_append,List.reverse_reverse]
    rfl

theorem trimSwap (p : Char → Bool) (t : Text) : trimLeft p (trimRight p t) = trim p t := by
  rw [trim]
  induction t with
  | nil => rfl
  | cons c t ih =>
    have split : trimRight p (c::t) = if trimRight p t = [] then trimRight p [c] else c::trimRight p t :=
      trimRightAfter p [c] t
    cases blank : p c with
    | true =>
      have left (u : Text) : trimLeft p (c::u) = trimLeft p u := List.dropWhile_cons_of_pos blank
      have alone : trimRight p [c] = [] := by simp [trimRight,blank]
      rw [left,split]
      split
      · rename_i none
        rw [alone,← ih,none]
      · rw [left,ih]
    | false =>
      have left (u : Text) : trimLeft p (c::u) = c::u := List.dropWhile_cons_of_neg (by simp [blank])
      have alone : trimRight p [c] = [c] := by simp [trimRight,blank]
      rw [left,split]
      split
      · rw [alone,left]
      · exact left _

theorem trimFront {p : Char → Bool} {a : Text} (t : Text) (some' : a ≠ []) (first : ∀ c, a.head? = some c → p c = false)
    (last : ∀ c, a.getLast? = some c → p c = false) : trim p (a ++ t) = a ++ trimRight p t := by
  have stays : trimRight p a = a := by
    cases back : a.reverse with
    | nil => exact absurd (List.reverse_eq_nil_iff.mp back) some'
    | cons c rest =>
      have ends : a.getLast? = some c := by rw [List.getLast?_eq_head?_reverse,back,List.head?_cons]
      rw [trimRight,back,List.dropWhile_cons_of_neg (by simp [last c ends]),← back,List.reverse_reverse]
  have left : trimLeft p (a ++ t) = a ++ t := by
    cases a with
    | nil => exact absurd rfl some'
    | cons c rest => exact List.dropWhile_cons_of_neg (by simp [first c rfl])
  rw [trim,left,trimRightAfter,stays]
  split
  · rename_i none
    rw [none,List.append_nil]
  · rfl

theorem trimPrefix {p : Char → Bool} {a : Text} (t : Text) (some' : a ≠ []) (first : ∀ c, a.head? = some c → p c = false)
    (last : ∀ c, a.getLast? = some c → p c = false) : a <+: trim p (a ++ t) :=
  trimFront t some' first last ▸ List.prefix_append a (trimRight p t)

theorem trimTwice (p : Char → Bool) (t : Text) : trim p (trim p t) = trim p t := by
  have whole (u : Text) : trim p u = (u.dropWhile p).rdropWhile p := rfl
  have left : ((t.dropWhile p).rdropWhile p).dropWhile p = (t.dropWhile p).rdropWhile p := by
    cases front : (t.dropWhile p).rdropWhile p with
    | nil => rfl
    | cons c rest =>
      obtain ⟨more,same⟩ := List.rdropWhile_prefix p (l := t.dropWhile p)
      have begins : t.dropWhile p = c::(rest ++ more) := by rw [← same,front,List.cons_append]
      have head : ¬ p c := by
        have := List.head_dropWhile_not p (l := t) (by rw [begins]; exact List.cons_ne_nil _ _)
        simpa [begins] using this
      exact List.dropWhile_cons_of_neg head
  rw [whole,whole,left,List.rdropWhile_idempotent]

theorem trimBetween {p : Char → Bool} {t : Text} {q : Char} (quote : p q = true) (plain : ∀ c ∈ t, p c = false) :
    trim p (q::(t ++ [q])) = t := by
  have whole : trim p (q::(t ++ [q])) = ((q::(t ++ [q])).dropWhile p).rdropWhile p := rfl
  rw [whole,List.dropWhile_cons_of_pos quote]
  cases t with
  | nil => simp [quote]
  | cons c rest =>
    have head : ¬ p c = true := by simp [plain c List.mem_cons_self]
    have stays : (c::rest).rdropWhile p = c::rest :=
      List.rdropWhile_eq_self_iff.mpr (fun some => by simp [plain _ (List.getLast_mem some)])
    rw [List.cons_append,List.dropWhile_cons_of_neg head,← List.cons_append,List.rdropWhile_concat_pos _ _ _ quote,stays]

end DevkitCommon.Words
