import DevkitCommon.Lib.Words

/-! The text of a failed validation as the client gets it: the validator's message, read by
two patterns. A dot of a pattern stands for anything but a newline. -/
namespace DevkitCommon.Kitexx.Validate
open Words

section Source

def wordChar (c : Char) : Bool := c.isAlphanum || c == '_'

def letters (s : String) : Text := s.toList

def validatorMsg (t : Text) : Option (Text × Text) := do
  let rest ← (letters "field ").isPrefixOf? t
  let name := rest.takeWhile wordChar
  let rule ← [' '].isPrefixOf? (rest.dropWhile wordChar)
  if name ≠ [] ∧ '\n' ∉ rule then some (name,rule) else none

/- The rules whose current value is the field's own text. -/
def echoedRules : List Text :=
  ["pattern","prefix","suffix","contains","not_contains","in","not_in","const","elem","key","value"].map letters

def failed (rule : Text) : Text := rule ++ letters " rule failed"

def echoedValue (t : Text) : Option Text :=
  echoedRules.findSome? (fun rule => do
    let value ← (failed rule ++ letters ", current value: ").isPrefixOf? t
    if '\n' ∉ value then some (failed rule) else none)

def upper (c : Char) : Bool := decide ('A' ≤ c ∧ c ≤ 'Z')

def gap : Option Char → Text
  | some p => if upper p then [] else ['_']
  | none => []

def snakeFrom : Option Char → Text → Text
  | _, [] => []
  | prev, c::rest =>
    (if upper c then gap prev ++ [Char.ofNat (c.toNat + 32)] else [c]) ++ snakeFrom (some c) rest

def snake (s : Text) : Text :=
  let b := snakeFrom none s
  if ['_'] <:+ b then b.dropLast else b

def FriendlyValidation (msg : Text) : Text :=
  match validatorMsg (trimSpace msg) with
  | none => msg
  | some (name,rule) => snake name ++ letters ": " ++ (echoedValue rule).getD rule

end Source
section Claim

def message (field rule value : Text) : Text :=
  letters "field " ++ field ++ [' '] ++ rule ++ letters " rule failed, current value: " ++ value

def named (field : Text) : Prop := field ≠ [] ∧ ∀ c ∈ field, wordChar c = true

instance (field : Text) : Decidable (named field) :=
  inferInstanceAs (Decidable (field ≠ [] ∧ ∀ c ∈ field, wordChar c = true))

def Blank (v : Text) : Prop := trimRight space v = []

def OneLine (v : Text) : Prop := trimRight space v ≠ [] ∧ '\n' ∉ trimRight space v

instance (v : Text) : Decidable (OneLine v) :=
  inferInstanceAs (Decidable (trimRight space v ≠ [] ∧ '\n' ∉ trimRight space v))

variable {field rule v w : Text}

theorem isPrefixSome {p t : Text} : p.isPrefixOf? (p ++ t) = some t :=
  List.isPrefixOf?_eq_some_iff_append_eq.mpr rfl

theorem wordNotBlank {c : Char} (word : wordChar c = true) : c ≠ ' ' := by
  rintro rfl
  cases word

theorem messageRead (field : Text) (is : named field) (t : Text) :
    validatorMsg (letters "field " ++ field ++ [' '] ++ t) = if '\n' ∉ t then some (field,t) else none := by
  have front : (letters "field ").isPrefixOf? (letters "field " ++ field ++ [' '] ++ t) = some (field ++ ' '::t) := by
    rw [List.append_assoc,List.append_assoc]
    exact isPrefixSome
  have name : (field ++ ' '::t).takeWhile wordChar = field := by
    rw [List.takeWhile_append_of_pos is.2,List.takeWhile_cons_of_neg (by decide),List.append_nil]
  have after : (field ++ ' '::t).dropWhile wordChar = ' '::t := by
    rw [List.dropWhile_append_of_pos is.2,List.dropWhile_cons_of_neg (by decide)]
  have rest : [' '].isPrefixOf? (' '::t) = some t := isPrefixSome (p := [' '])
  simp only [validatorMsg,front,name,after,rest,bind,Option.bind,is.1,ne_eq,not_false_eq_true,true_and]

theorem rulesApart : ∀ r ∈ echoedRules, ∀ q ∈ echoedRules,
    failed r ++ letters ", current value: " <+: failed q ++ letters ", current value: " → r = q := by decide
theorem rulesCut : ∀ r ∈ echoedRules, ∀ q ∈ echoedRules,
    ¬ failed r ++ letters ", current value: " <+: failed q ++ letters ", current value:" := by decide
theorem rulesOneLine : ∀ r ∈ echoedRules, '\n' ∉ failed r ++ letters ", current value: " := by decide

theorem echoedFound (mem : rule ∈ echoedRules) (line : '\n' ∉ w) :
    echoedValue (failed rule ++ letters ", current value: " ++ w) = some (failed rule) := by
  have only : ∀ r ∈ echoedRules, r ≠ rule →
      (failed r ++ letters ", current value: ").isPrefixOf? (failed rule ++ letters ", current value: " ++ w) = none := by
    intro r inside other
    cases read : (failed r ++ letters ", current value: ").isPrefixOf? (failed rule ++ letters ", current value: " ++ w) with
    | none => rfl
    | some v =>
      have same := List.isPrefixOf?_eq_some_iff_append_eq.mp read
      have first : failed r ++ letters ", current value: " <+: failed rule ++ letters ", current value: " ++ w := ⟨v,same⟩
      obtain short | long := List.prefix_or_prefix_of_prefix first (List.prefix_append _ w)
      · exact absurd (rulesApart r inside rule mem short) other
      · exact absurd (rulesApart rule mem r inside long).symm other
  obtain ⟨front,back,split⟩ := List.append_of_mem mem
  have once : echoedRules.Nodup := by decide
  rw [split] at once
  have before : ∀ r ∈ front, r ≠ rule := fun r inside same =>
    (List.nodup_append.mp once).2.2 r inside rule List.mem_cons_self same
  rw [echoedValue,split,List.findSome?_append]
  have none : front.findSome? (fun r => do
      let value ← (failed r ++ letters ", current value: ").isPrefixOf? (failed rule ++ letters ", current value: " ++ w)
      if '\n' ∉ value then some (failed r) else none) = none := by
    refine List.findSome?_eq_none_iff.mpr fun r inside => ?_
    rw [only r (split ▸ List.mem_append_left _ inside) (before r inside)]
    rfl
  rw [none,List.findSome?_cons,isPrefixSome]
  simp only [Option.or,bind,Option.bind_some,if_pos line]

theorem echoedMissed (mem : rule ∈ echoedRules) : echoedValue (failed rule ++ letters ", current value:") = none := by
  refine List.findSome?_eq_none_iff.mpr fun r inside => ?_
  cases read : (failed r ++ letters ", current value: ").isPrefixOf? (failed rule ++ letters ", current value:") with
  | none => rfl
  | some v => exact absurd ⟨v,List.isPrefixOf?_eq_some_iff_append_eq.mp read⟩ (rulesCut r inside rule mem)

def start (field rule : Text) : Text :=
  letters "field " ++ field ++ [' '] ++ (failed rule ++ letters ", current value:")

theorem messageStart : message field rule v = start field rule ++ (letters " " ++ v) := by
  have blank : letters " rule failed, current value: " = letters " rule failed" ++ letters ", current value:" ++ letters " " := by
    decide
  rw [message,start,failed,blank]
  simp only [List.append_assoc]

theorem messageTrim : trimSpace (message field rule v) =
    start field rule ++ if trimRight space v = [] then [] else letters " " ++ trimRight space v := by
  have some' : start field rule ≠ [] := List.cons_ne_nil _ _
  have first : ∀ c, (start field rule).head? = some c → space c = false := by
    intro c head
    cases Option.some.inj head
    decide
  have last : ∀ c, (start field rule).getLast? = some c → space c = false := by
    intro c ends
    have colon : (start field rule).getLast? = some ':' := by
      rw [start,List.getLast?_append,List.getLast?_append]
      rfl
    cases Option.some.inj (colon.symm.trans ends)
    decide
  rw [messageStart,trimSpace,trimFront _ some' first last,trimRightAfter]
  rfl

theorem friendlyExact (is : named field) (mem : rule ∈ echoedRules) (v : Text) :
    FriendlyValidation (message field rule v) =
      if trimRight space v = [] then snake field ++ letters ": " ++ (failed rule ++ letters ", current value:")
      else if '\n' ∈ trimRight space v then message field rule v
      else snake field ++ letters ": " ++ failed rule := by
  have plain := rulesOneLine rule mem
  have colon : letters ", current value: " = letters ", current value:" ++ letters " " := by decide
  rw [colon,← List.append_assoc,List.mem_append,not_or] at plain
  rw [FriendlyValidation,messageTrim]
  by_cases blank : trimRight space v = []
  · rw [if_pos blank,if_pos blank,List.append_nil,start,messageRead field is,if_pos plain.1]
    simp only [echoedMissed mem,Option.getD_none]
  · rw [if_neg blank,if_neg blank,start,List.append_assoc _ (failed rule ++ _),messageRead field is]
    by_cases line : '\n' ∈ trimRight space v
    · rw [if_pos line,if_neg (fun apart => apart (List.mem_append_right _ (List.mem_append_right _ line)))]
    · have apart : '\n' ∉ failed rule ++ letters ", current value:" ++ (letters " " ++ trimRight space v) := by
        rw [List.mem_append,not_or]
        exact ⟨plain.1,List.mem_append.not.mpr (not_or.mpr ⟨plain.2,line⟩)⟩
      rw [if_neg line,if_pos apart]
      have found := echoedFound mem line
      rw [colon] at found
      simp only [List.append_assoc] at found ⊢
      simp only [found,Option.getD_some]

theorem capitalASCII {c : Char} (capital : upper c = true) : c.toNat < 128 := by
  have most : c.toNat ≤ 90 := UInt32.le_iff_toNat_le.mp (of_decide_eq_true capital).2
  omega

theorem snakeNoBlank (is : named field) : ' ' ∉ snake field := by
  have from' (prev : Option Char) (t : Text) (word : ∀ c ∈ t, wordChar c = true) : ' ' ∉ snakeFrom prev t := by
    induction t generalizing prev with
    | nil => exact List.not_mem_nil
    | cons c rest ih =>
      have later := ih (some c) (fun d mem => word d (List.mem_cons_of_mem _ mem))
      have here : ' ' ≠ c := Ne.symm (wordNotBlank (word c List.mem_cons_self))
      rw [snakeFrom]
      refine fun mem => (List.mem_append.mp mem).elim (fun front => ?_) later
      split at front
      · rename_i capital
        have gapless : ' ' ∉ gap prev := by
          cases prev with
          | none => exact List.not_mem_nil
          | some p =>
            rw [gap]
            split
            · exact List.not_mem_nil
            · decide
        refine (List.mem_append.mp front).elim gapless (fun last => ?_)
        have ascii : c.toNat < 128 := capitalASCII capital
        exact forASCII (p := fun c => upper c = true → ' ' ≠ Char.ofNat (c.toNat + 32)) (by decide) ascii capital
          (List.mem_singleton.mp last)
      · exact here (List.mem_singleton.mp front)
  have whole := from' none field is.2
  rw [snake]
  split
  · exact fun mem => whole (List.dropLast_subset _ mem)
  · exact whole

theorem friendlyApart (is : named field) (t : Text) : snake field ++ letters ": " ++ t ≠ message field rule v := by
  intro same
  have front (a : Text) (c : Char) (b : Text) (plain : ' ' ∉ a) (at' : c = ' ') :
      (a ++ c::b).takeWhile (fun c => c != ' ') = a := by
    have each : ∀ d ∈ a, (d != ' ') = true := fun d mem => bne_iff_ne.mpr fun blank => plain (blank ▸ mem)
    rw [List.takeWhile_append_of_pos each,List.takeWhile_cons_of_neg (by simp [at']),List.append_nil]
  have left := front (snake field ++ [':']) ' ' t (by
    rw [List.mem_append,not_or]
    exact ⟨snakeNoBlank is,by decide⟩) rfl
  have right := front (letters "field") ' ' (field ++ [' '] ++ rule ++ letters " rule failed, current value: " ++ v)
    (by decide) rfl
  have split : snake field ++ letters ": " ++ t = snake field ++ [':'] ++ ' '::t := by
    simp only [letters,List.append_assoc]
    rfl
  have whole : message field rule v =
      letters "field" ++ ' '::(field ++ [' '] ++ rule ++ letters " rule failed, current value: " ++ v) := by
    simp only [message,List.append_assoc]
    rfl
  rw [split,whole] at same
  rw [same,right] at left
  have ends := congrArg List.getLast? left
  rw [List.getLast?_append] at ends
  cases ends

theorem neverEchoes (field : Text) (rule : Text) (v w : Text) (is : named field) (mem : rule ∈ echoedRules) :
    FriendlyValidation (message field rule v) = FriendlyValidation (message field rule w) ↔
      v = w ∨ Blank v ∧ Blank w ∨ OneLine v ∧ OneLine w := by
  have cut : snake field ++ letters ": " ++ (failed rule ++ letters ", current value:") ≠
      snake field ++ letters ": " ++ failed rule := by
    intro same
    have short := List.append_cancel_left same
    have none : letters ", current value:" = [] := List.append_cancel_left (short.trans (List.append_nil _).symm)
    cases none
  have valueOf {v w : Text} (same : message field rule v = message field rule w) : v = w := List.append_cancel_left same
  rw [friendlyExact is mem,friendlyExact is mem,Blank,Blank,OneLine,OneLine]
  constructor
  · intro same
    split at same
    · rename_i blank
      split at same
      · rename_i other
        exact .inr (.inl ⟨blank,other⟩)
      · split at same
        · exact absurd same (friendlyApart is _)
        · exact absurd same cut
    · rename_i blank
      split at same
      · split at same
        · exact absurd same.symm (friendlyApart is _)
        · split at same
          · exact .inl (valueOf same)
          · exact absurd same.symm (friendlyApart is _)
      · rename_i line
        split at same
        · exact absurd same.symm cut
        · rename_i other
          split at same
          · exact absurd same (friendlyApart is _)
          · rename_i line'
            exact .inr (.inr ⟨⟨blank,line⟩,other,line'⟩)
  · rintro (rfl | ⟨first,second⟩ | ⟨⟨some',line⟩,some'',line'⟩)
    · rfl
    · rw [if_pos first,if_pos second]
    · rw [if_neg some',if_neg some'',if_neg line,if_neg line']

theorem passwordNamed : named (letters "Password") := by
  have word : ((letters "Password").all fun c => wordChar c) = true := by decide +kernel
  exact ⟨by decide,List.all_eq_true.mp word⟩

theorem passwordsAlike : FriendlyValidation (message (letters "Password") (letters "pattern") (letters "hunter2")) =
    FriendlyValidation (message (letters "Password") (letters "pattern") (letters "a, current value: b\n")) :=
  (neverEchoes (letters "Password") (letters "pattern") (letters "hunter2") (letters "a, current value: b\n")
    passwordNamed (by decide)).mpr (.inr (.inr (by decide)))

theorem linesEchoed : (FriendlyValidation (message (letters "Password") (letters "pattern") (letters "a\nb")) =
      message (letters "Password") (letters "pattern") (letters "a\nb") ∧
    FriendlyValidation (message (letters "Password") (letters "pattern") []) ≠
      FriendlyValidation (message (letters "Password") (letters "pattern") (letters "a"))) ∧
    ¬ ∀ field rule v w, named field → rule ∈ echoedRules →
      FriendlyValidation (message field rule v) = FriendlyValidation (message field rule w) := by
  refine ⟨⟨by decide,by decide⟩,fun same => ?_⟩
  have lines := same (letters "Password") (letters "pattern") (letters "a\nb") (letters "c\nb") passwordNamed (by decide)
  revert lines
  decide

end Claim
end DevkitCommon.Kitexx.Validate
