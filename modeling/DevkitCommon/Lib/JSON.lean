import DevkitCommon.Lib.Text

/-! JSON as bytes: values read off the front of a text byte by byte, with the containers
that are open kept on a stack, and written back with names in order. -/
namespace DevkitCommon.JSON
open DevkitCommon.Text (runes rune runesFrom)

abbrev Bytes := List UInt8

def bytes (s : String) : Bytes := s.toList.flatMap String.utf8EncodeChar

inductive Value where
  | null
  | bool (b : Bool)
  | number (raw : Bytes)
  | text (s : Bytes)
  | array (items : List Value)
  | object (members : List (Bytes × Value))

def put (members : List (Bytes × Value)) (k : Bytes) (v : Value) : List (Bytes × Value) :=
  if members.any (fun m => m.1 == k) then members.map (fun m => if m.1 == k then (k,v) else m)
  else members ++ [(k,v)]

section Strings

def unitsFrom : Nat → Bytes → List (Option Char)
  | _, [] => []
  | 0, b::rest =>
    let (c,size) := rune b rest
    (if c = Char.ofNat 0xFFFD ∧ size = 1 then none else some c)::unitsFrom (size-1) rest
  | skip+1, _::rest => unitsFrom skip rest

def units (bs : Bytes) : List (Option Char) := unitsFrom 0 bs

def hexDigit (c : Char) : Option Nat :=
  if '0' ≤ c ∧ c ≤ '9' then some (c.toNat - '0'.toNat)
  else if 'a' ≤ c ∧ c ≤ 'f' then some (c.toNat - 'a'.toNat + 10)
  else if 'A' ≤ c ∧ c ≤ 'F' then some (c.toNat - 'A'.toNat + 10)
  else none

def hex4 (a b c d : Char) : Nat :=
  [a,b,c,d].foldl (fun n x => 16*n + (hexDigit x).getD 0) 0

def high (n : Nat) : Bool := decide (0xD800 ≤ n ∧ n < 0xDC00)
def low (n : Nat) : Bool := decide (0xDC00 ≤ n ∧ n < 0xE000)

def escaped : Char → Char
  | 'b' => Char.ofNat 8
  | 'f' => Char.ofNat 12
  | 'n' => '\n'
  | 'r' => '\r'
  | 't' => '\t'
  | c => c

/- What stands between the quotes: two halves of a pair are one character, a half alone
is U+FFFD. -/
def unescape : List Char → List Char
  | '\\' :: 'u' :: a :: b :: c :: d :: '\\' :: 'u' :: e :: f :: g :: h :: rest =>
    let x := hex4 a b c d
    let y := hex4 e f g h
    if high x && low y then Char.ofNat (0x10000 + (x - 0xD800)*0x400 + (y - 0xDC00))::unescape rest
    else Char.ofNat (if high x || low x then 0xFFFD else x)::unescape ('\\' :: 'u' :: e :: f :: g :: h :: rest)
  | '\\' :: 'u' :: a :: b :: c :: d :: rest =>
    let x := hex4 a b c d
    Char.ofNat (if high x || low x then 0xFFFD else x)::unescape rest
  | '\\' :: c :: rest => escaped c::unescape rest
  | c :: rest => c::unescape rest
  | [] => []

def unquote (raw : Bytes) : Bytes := (unescape (runes raw)).flatMap String.utf8EncodeChar

def hexLetter (n : Nat) : Char := "0123456789abcdef".toList.getD n '0'

def escape (c : Char) : List Char :=
  if c = '"' ∨ c = '\\' then ['\\',c]
  else if c = Char.ofNat 8 then ['\\','b']
  else if c = Char.ofNat 12 then ['\\','f']
  else if c = '\n' then ['\\','n']
  else if c = '\r' then ['\\','r']
  else if c = '\t' then ['\\','t']
  else if c.toNat < 0x20 ∨ c = '<' ∨ c = '>' ∨ c = '&' ∨ c.toNat = 0x2028 ∨ c.toNat = 0x2029 then
    ['\\','u',hexLetter (c.toNat/0x1000),hexLetter (c.toNat/0x100%16),hexLetter (c.toNat/16%16),hexLetter (c.toNat%16)]
  else [c]

def quoted (s : Bytes) : Bytes :=
  0x22::((units s).flatMap (fun u => match u with
    | none => bytes "\\ufffd"
    | some c => (escape c).flatMap String.utf8EncodeChar) ++ [0x22])

theorem hexRead : ∀ k, k < 16 → (hexDigit (hexLetter k)).getD 0 = k := by decide

theorem hex4Letters {n : Nat} (small : n < 0x10000) :
    hex4 (hexLetter (n/0x1000)) (hexLetter (n/0x100%16)) (hexLetter (n/16%16)) (hexLetter (n%16)) = n := by
  simp only [hex4,List.foldl_cons,List.foldl_nil]
  rw [hexRead _ (by omega),hexRead _ (by omega),hexRead _ (by omega),hexRead _ (by omega)]
  omega

theorem unescapeUnit {a b c d : Char} (whole : (high (hex4 a b c d) || low (hex4 a b c d)) = false) (rest : List Char) :
    unescape ('\\' :: 'u' :: a :: b :: c :: d :: rest) = Char.ofNat (hex4 a b c d)::unescape rest := by
  have notHigh : high (hex4 a b c d) = false := (Bool.or_eq_false_iff.mp whole).1
  have notLow : low (hex4 a b c d) = false := (Bool.or_eq_false_iff.mp whole).2
  rw [unescape.eq_def]
  split
  · rename_i same
    simp only [List.cons.injEq,true_and] at same
    obtain ⟨rfl,rfl,rfl,rfl,rfl⟩ := same
    simp [notHigh,notLow]
  · rename_i same
    simp only [List.cons.injEq,true_and] at same
    obtain ⟨rfl,rfl,rfl,rfl,rfl⟩ := same
    simp [whole]
  · rename_i _ no same
    simp only [List.cons.injEq,true_and] at same
    obtain ⟨rfl,rfl⟩ := same
    exact (no _ _ _ _ _ rfl rfl).elim
  · rename_i no same
    simp only [List.cons.injEq] at same
    obtain ⟨rfl,rfl⟩ := same
    exact absurd rfl (no _ _ rfl)
  · rename_i same
    exact absurd same (by simp)

theorem unescapeEscape (c : Char) (rest : List Char) : unescape (escape c ++ rest) = c::unescape rest := by
  unfold escape
  split
  · rename_i same
    rcases same with rfl | rfl <;> rfl
  split
  · rename_i same
    subst same
    rfl
  split
  · rename_i same
    subst same
    rfl
  split
  · rename_i same
    subst same
    rfl
  split
  · rename_i same
    subst same
    rfl
  split
  · rename_i same
    subst same
    rfl
  split
  · rename_i special
    have small : c.toNat < 0x3000 := by
      rcases special with less | rfl | rfl | rfl | same | same
      · omega
      · decide
      · decide
      · decide
      · omega
      · omega
    have read := hex4Letters (n := c.toNat) (by omega)
    simp only [List.cons_append,List.nil_append]
    rw [unescapeUnit (by rw [read]; simp [high,low]; omega),read,Char.ofNat_toNat]
  · rename_i plain _ _ _ _ _ _
    have notBackslash : c ≠ '\\' := fun same => plain (.inr same)
    rw [List.singleton_append,unescape.eq_def]
    split
    · rename_i same
      exact absurd (List.cons.inj same).1 notBackslash
    · rename_i same
      exact absurd (List.cons.inj same).1 notBackslash
    · rename_i same
      exact absurd (List.cons.inj same).1 notBackslash
    · rename_i same
      obtain ⟨rfl,rfl⟩ := List.cons.inj same
      rfl
    · rename_i same
      exact absurd same (List.cons_ne_nil _ _)

theorem unescapeText (t : List Char) : unescape (t.flatMap escape) = t := by
  induction t with
  | nil => rfl
  | cons c t ih => rw [List.flatMap_cons,unescapeEscape,ih]

end Strings
section Writing

def before : Bytes → Bytes → Bool
  | [], _ => true
  | _::_, [] => false
  | a::as, b::bs => decide (a < b) || (a == b && before as bs)

def insertMember (m : Bytes × Bytes) : List (Bytes × Bytes) → List (Bytes × Bytes)
  | [] => [m]
  | n::rest => if before m.1 n.1 then m::n::rest else n::insertMember m rest

def sortMembers (ms : List (Bytes × Bytes)) : List (Bytes × Bytes) := ms.foldr insertMember []

def joined (parts : List Bytes) : Bytes := (parts.intersperse [0x2C]).flatten

mutual
def marshal : Value → Bytes
  | .null => bytes "null"
  | .bool b => bytes (if b then "true" else "false")
  | .number raw => raw
  | .text s => quoted s
  | .array items => 0x5B::(joined (marshalItems items) ++ [0x5D])
  | .object members =>
    0x7B::(joined ((sortMembers (marshalMembers members)).map (fun m => quoted m.1 ++ 0x3A::m.2)) ++ [0x7D])
def marshalItems : List Value → List Bytes
  | [] => []
  | v::rest => marshal v::marshalItems rest
def marshalMembers : List (Bytes × Value) → List (Bytes × Bytes)
  | [] => []
  | (k,v)::rest => (k,marshal v)::marshalMembers rest
end

end Writing
section Reading

def space (c : UInt8) : Bool := c == 0x20 || c == 0x09 || c == 0x0D || c == 0x0A
def digit (c : UInt8) : Bool := decide (0x30 ≤ c.toNat ∧ c.toNat ≤ 0x39)
def hexByte (c : UInt8) : Bool := (hexDigit (Char.ofNat c.toNat)).isSome

inductive Escape where
  | plain
  | slash
  | hex (left : Nat)
  deriving DecidableEq

def Escape.next : Escape → UInt8 → Option Escape
  | .plain, c => if c = 0x5C then some .slash else if c.toNat < 0x20 then none else some .plain
  | .slash, c =>
    if c = 0x75 then some (.hex 3)
    else if c ∈ [0x62,0x66,0x6E,0x72,0x74,0x5C,0x2F,0x22] then some .plain
    else none
  | .hex 0, c => if hexByte c then some .plain else none
  | .hex (left+1), c => if hexByte c then some (.hex left) else none

inductive Numeral where
  | minus
  | zero
  | whole
  | point
  | fraction
  | exponent
  | sign
  | power
  deriving DecidableEq

def Numeral.next : Numeral → UInt8 → Option Numeral
  | .minus, c => if c = 0x30 then some .zero else if digit c then some .whole else none
  | .zero, c => if c = 0x2E then some .point else if c = 0x65 ∨ c = 0x45 then some .exponent else none
  | .whole, c =>
    if digit c then some .whole else if c = 0x2E then some .point
    else if c = 0x65 ∨ c = 0x45 then some .exponent else none
  | .point, c => if digit c then some .fraction else none
  | .fraction, c => if digit c then some .fraction else if c = 0x65 ∨ c = 0x45 then some .exponent else none
  | .exponent, c => if c = 0x2B ∨ c = 0x2D then some .sign else if digit c then some .power else none
  | .sign, c => if digit c then some .power else none
  | .power, c => if digit c then some .power else none

def Numeral.complete : Numeral → Bool
  | .zero | .whole | .fraction | .power => true
  | .minus | .point | .exponent | .sign => false

inductive Frame where
  | items (done : List Value)
  | members (done : List (Bytes × Value)) (key : Bytes)

inductive Mode where
  | value (first : Bool)
  | name (first : Bool)
  | colon
  | string (naming : Bool) (raw : Bytes) (at' : Escape)
  | number (raw : Bytes) (at' : Numeral)
  | literal (left : Bytes) (v : Value)
  | after

inductive State where
  | reading (mode : Mode) (stack : List Frame)
  | ended (v : Value) (rest : Bytes)
  | failed

def maxNestingDepth : Nat := 10000

def pushFrame (mode : Mode) (f : Frame) (stack : List Frame) : State :=
  if stack.length < maxNestingDepth then .reading mode (f::stack) else .failed

/- A value is complete: it goes to the container it stands in. -/
def finish (v : Value) : List Frame → State
  | [] => .ended v []
  | .items done::stack => .reading .after (.items (done ++ [v])::stack)
  | .members done key::stack => .reading .after (.members (put done key v) key::stack)

def endArray : List Frame → State
  | .items done::stack => finish (.array done) stack
  | _ => .failed

def endObject : List Frame → State
  | .members done _::stack => finish (.object done) stack
  | _ => .failed

def comma : List Frame → State
  | .items done::stack => .reading (.value false) (.items done::stack)
  | .members done key::stack => .reading (.name false) (.members done key::stack)
  | [] => .failed

def nameFrame (key : Bytes) : List Frame → State
  | .members done _::stack => .reading .colon (.members done key::stack)
  | _ => .failed

def beginValue (first : Bool) (stack : List Frame) (c : UInt8) : State :=
  if space c then .reading (.value first) stack
  else if c = 0x7B then pushFrame (.name true) (.members [] []) stack
  else if c = 0x5B then pushFrame (.value true) (.items []) stack
  else if c = 0x22 then .reading (.string false [] .plain) stack
  else if c = 0x2D then .reading (.number [c] .minus) stack
  else if c = 0x30 then .reading (.number [c] .zero) stack
  else if digit c then .reading (.number [c] .whole) stack
  else if c = 0x74 then .reading (.literal (bytes "rue") (.bool true)) stack
  else if c = 0x66 then .reading (.literal (bytes "alse") (.bool false)) stack
  else if c = 0x6E then .reading (.literal (bytes "ull") .null) stack
  else if c = 0x5D ∧ first = true then endArray stack
  else .failed

def afterValue (stack : List Frame) (c : UInt8) : State :=
  if space c then .reading .after stack
  else if c = 0x2C then comma stack
  else if c = 0x5D then endArray stack
  else if c = 0x7D then endObject stack
  else .failed

def follow : State → UInt8 → State
  | .ended v rest, c => .ended v (rest ++ [c])
  | .reading .after stack, c => afterValue stack c
  | s, _ => s

def step : State → UInt8 → State
  | .reading (.value first) stack, c => beginValue first stack c
  | .reading (.name first) stack, c =>
    if space c then .reading (.name first) stack
    else if c = 0x22 then .reading (.string true [] .plain) stack
    else if c = 0x7D ∧ first = true then endObject stack
    else .failed
  | .reading .colon stack, c =>
    if space c then .reading .colon stack
    else if c = 0x3A then .reading (.value false) stack
    else .failed
  | .reading (.string naming raw esc) stack, c =>
    if esc = .plain ∧ c = 0x22 then
      if naming then nameFrame (unquote raw) stack else finish (.text (unquote raw)) stack
    else match esc.next c with
      | some esc => .reading (.string naming (raw ++ [c]) esc) stack
      | none => .failed
  | .reading (.number raw numeral) stack, c => match numeral.next c with
    | some numeral => .reading (.number (raw ++ [c]) numeral) stack
    | none => if numeral.complete then follow (finish (.number raw) stack) c else .failed
  | .reading (.literal left v) stack, c => match left with
    | [l] => if c = l then finish v stack else .failed
    | l::left => if c = l then .reading (.literal left v) stack else .failed
    | [] => .failed
  | s, c => follow s c

def run (s : State) (bs : Bytes) : State := bs.foldl step s

def start : State := .reading (.value false) []

/- The first value of a text and what is left of it; the end is read as a space. -/
def decode (bs : Bytes) : Option (Value × Bytes) :=
  match run start (bs ++ [0x20]) with
  | .ended v rest => some (v,rest)
  | _ => none

end Reading
section Veil
variable (secret : Bytes → Bool) (mask : Value)

mutual
def veil (hidden : Bool) : Value → Value
  | .text s => .text (if hidden then [] else s)
  | .array items => .array (veilItems hidden items)
  | .object members => .object (veilMembers hidden members)
  | .null => .null
  | .bool b => .bool b
  | .number raw => .number raw
def veilItems (hidden : Bool) : List Value → List Value
  | [] => []
  | v::rest => veil hidden v::veilItems hidden rest
def veilMembers (hidden : Bool) : List (Bytes × Value) → List (Bytes × Value)
  | [] => []
  | (k,v)::rest => (k,if secret k then mask else veil hidden v)::veilMembers hidden rest
end

def Frame.hides : Frame → Bool
  | .items _ => false
  | .members _ key => secret key

def hidden (stack : List Frame) : Bool := stack.any (Frame.hides secret)

inductive Under : List Frame → List Frame → Prop where
  | nil : Under [] []
  | items {done done' stack stack'} (rest : Under stack stack')
      (same : veilItems secret mask (hidden secret stack) done = veilItems secret mask (hidden secret stack) done') :
      Under (.items done::stack) (.items done'::stack')
  | members {done done' key stack stack'} (rest : Under stack stack')
      (same : veilMembers secret mask (hidden secret stack) done = veilMembers secret mask (hidden secret stack) done') :
      Under (.members done key::stack) (.members done' key::stack')

inductive Alike : State → State → Prop where
  | failed : Alike .failed .failed
  | ended {v v' rest} (same : veil secret mask false v = veil secret mask false v') : Alike (.ended v rest) (.ended v' rest)
  | reading {mode stack stack'} (under : Under secret mask stack stack') : Alike (.reading mode stack) (.reading mode stack')
  | text {raw raw' esc stack stack'} (below : hidden secret stack = true) (under : Under secret mask stack stack') :
      Alike (.reading (.string false raw esc) stack) (.reading (.string false raw' esc) stack')

variable {secret mask}

theorem veilItemsAppend (hidden : Bool) (xs ys : List Value) :
    veilItems secret mask hidden (xs ++ ys) = veilItems secret mask hidden xs ++ veilItems secret mask hidden ys := by
  induction xs with
  | nil => rfl
  | cons v xs ih => simp only [List.cons_append,veilItems,ih]

theorem veilMembersMap (hidden : Bool) (ms : List (Bytes × Value)) :
    veilMembers secret mask hidden ms =
      ms.map (fun m => (m.1,if secret m.1 then mask else veil secret mask hidden m.2)) := by
  induction ms with
  | nil => rfl
  | cons m ms ih => rw [veilMembers,ih,List.map_cons]

theorem veilMembersPut (hidden : Bool) (ms : List (Bytes × Value)) (k : Bytes) (v : Value) :
    veilMembers secret mask hidden (put ms k v) =
      put (veilMembers secret mask hidden ms) k (if secret k then mask else veil secret mask hidden v) := by
  have names : (veilMembers secret mask hidden ms).any (fun m => m.1 == k) = ms.any (fun m => m.1 == k) := by
    rw [veilMembersMap,List.any_map]
    rfl
  unfold put
  rw [names]
  split
  · rw [veilMembersMap,veilMembersMap,List.map_map,List.map_map]
    refine List.map_congr_left (fun m _ => ?_)
    by_cases same : m.1 == k
    · simp only [Function.comp_apply,same,if_true]
    · simp only [Function.comp_apply,same,Bool.false_eq_true,if_false]
  · rw [veilMembersMap,veilMembersMap,List.map_append,List.map_singleton]

theorem depthSame {stack stack'} (under : Under secret mask stack stack') : stack.length = stack'.length := by
  induction under with
  | nil => rfl
  | items _ _ ih => rw [List.length_cons,List.length_cons,ih]
  | members _ _ ih => rw [List.length_cons,List.length_cons,ih]

theorem underRefl (stack : List Frame) : Under secret mask stack stack := by
  induction stack with
  | nil => exact .nil
  | cons f stack ih =>
    cases f with
    | items done => exact .items ih rfl
    | members done key => exact .members ih rfl

theorem finishAlike {stack stack' v v'} (under : Under secret mask stack stack')
    (same : veil secret mask (hidden secret stack) v = veil secret mask (hidden secret stack) v') :
    Alike secret mask (finish v stack) (finish v' stack') := by
  cases under with
  | nil => exact .ended same
  | @items done done' stack stack' rest before =>
    refine .reading (.items rest ?_)
    have value : veil secret mask (hidden secret stack) v = veil secret mask (hidden secret stack) v' := same
    rw [veilItemsAppend,veilItemsAppend,before,veilItems,veilItems,value,veilItems,veilItems]
  | @members done done' key stack stack' rest before =>
    refine .reading (.members rest ?_)
    rw [veilMembersPut,veilMembersPut,before]
    by_cases named : secret key
    · rw [if_pos named,if_pos named]
    · rw [if_neg named,if_neg named]
      have value : hidden secret (.members done key::stack) = hidden secret stack := by
        simp only [hidden,List.any_cons,Frame.hides,named,Bool.false_or]
      rw [value] at same
      rw [same]

theorem endArrayAlike {stack stack'} (under : Under secret mask stack stack') :
    Alike secret mask (endArray stack) (endArray stack') := by
  cases under with
  | nil => exact .failed
  | items rest same =>
    refine finishAlike rest ?_
    rw [veil,veil,same]
  | members rest same => exact .failed

theorem endObjectAlike {stack stack'} (under : Under secret mask stack stack') :
    Alike secret mask (endObject stack) (endObject stack') := by
  cases under with
  | nil => exact .failed
  | items rest same => exact .failed
  | members rest same =>
    refine finishAlike rest ?_
    rw [veil,veil,same]

theorem commaAlike {stack stack'} (under : Under secret mask stack stack') : Alike secret mask (comma stack) (comma stack') := by
  cases under with
  | nil => exact .failed
  | items rest same => exact .reading (.items rest same)
  | members rest same => exact .reading (.members rest same)

theorem nameAlike {stack stack'} (under : Under secret mask stack stack') (key : Bytes) :
    Alike secret mask (nameFrame key stack) (nameFrame key stack') := by
  cases under with
  | nil => exact .failed
  | items rest same => exact .failed
  | members rest same => exact .reading (.members rest same)

theorem pushAlike {stack stack'} (under : Under secret mask stack stack') (mode : Mode) {f : Frame}
    (opened : Under secret mask (f::stack) (f::stack')) :
    Alike secret mask (pushFrame mode f stack) (pushFrame mode f stack') := by
  unfold pushFrame
  rw [depthSame under]
  split
  · exact .reading opened
  · exact .failed

theorem iteAlike {p : Prop} [Decidable p] {s s' t t'} (yes : Alike secret mask s s') (no : Alike secret mask t t') :
    Alike secret mask (if p then s else t) (if p then s' else t') := by
  split
  · exact yes
  · exact no

theorem beginAlike {stack stack'} (under : Under secret mask stack stack') (first : Bool) (c : UInt8) :
    Alike secret mask (beginValue first stack c) (beginValue first stack' c) := by
  unfold beginValue
  apply iteAlike (.reading under)
  apply iteAlike (pushAlike under _ (.members under rfl))
  apply iteAlike (pushAlike under _ (.items under rfl))
  apply iteAlike (.reading under)
  apply iteAlike (.reading under)
  apply iteAlike (.reading under)
  apply iteAlike (.reading under)
  apply iteAlike (.reading under)
  apply iteAlike (.reading under)
  apply iteAlike (.reading under)
  exact iteAlike (endArrayAlike under) .failed

theorem afterAlike {stack stack'} (under : Under secret mask stack stack') (c : UInt8) :
    Alike secret mask (afterValue stack c) (afterValue stack' c) := by
  unfold afterValue
  apply iteAlike (.reading under)
  apply iteAlike (commaAlike under)
  apply iteAlike (endArrayAlike under)
  exact iteAlike (endObjectAlike under) .failed

theorem followAlike {s s'} (alike : Alike secret mask s s') (c : UInt8) : Alike secret mask (follow s c) (follow s' c) := by
  cases alike with
  | failed => exact .failed
  | ended same => exact .ended same
  | @reading mode stack stack' under =>
    cases mode with
    | after => exact afterAlike under c
    | value first => exact .reading under
    | name first => exact .reading under
    | colon => exact .reading under
    | string naming raw esc => exact .reading under
    | number raw numeral => exact .reading under
    | literal left v => exact .reading under
  | text below under => exact .text below under

theorem stringAlike {stack stack'} (under : Under secret mask stack stack') (naming : Bool) (raw : Bytes) (esc : Escape)
    (c : UInt8) : Alike secret mask (step (.reading (.string naming raw esc) stack) c)
      (step (.reading (.string naming raw esc) stack') c) := by
  simp only [step]
  refine iteAlike (iteAlike (nameAlike under _) (finishAlike under rfl)) ?_
  cases esc.next c with
  | none => exact .failed
  | some next => exact .reading under

theorem hiddenAlike {stack stack'} (below : hidden secret stack = true) (under : Under secret mask stack stack')
    (raw raw' : Bytes) (esc : Escape) (c : UInt8) :
    Alike secret mask (step (.reading (.string false raw esc) stack) c)
      (step (.reading (.string false raw' esc) stack') c) := by
  simp only [step]
  apply iteAlike
  · refine finishAlike under ?_
    rw [below,veil,veil,if_pos rfl,if_pos rfl]
  · cases esc.next c with
    | none => exact .failed
    | some next => exact .text below under

theorem numberAlike {stack stack'} (under : Under secret mask stack stack') (raw : Bytes) (numeral : Numeral)
    (c : UInt8) : Alike secret mask (step (.reading (.number raw numeral) stack) c)
      (step (.reading (.number raw numeral) stack') c) := by
  simp only [step]
  cases numeral.next c with
  | some next => exact .reading under
  | none => exact iteAlike (followAlike (finishAlike under rfl) c) .failed

theorem literalAlike {stack stack'} (under : Under secret mask stack stack') (left : Bytes) (v : Value)
    (c : UInt8) : Alike secret mask (step (.reading (.literal left v) stack) c)
      (step (.reading (.literal left v) stack') c) := by
  rcases left with _ | ⟨l,_ | ⟨m,left⟩⟩
  · exact .failed
  · exact iteAlike (finishAlike under rfl) .failed
  · exact iteAlike (.reading under) .failed

theorem stepAlike {s s'} (alike : Alike secret mask s s') (c : UInt8) : Alike secret mask (step s c) (step s' c) := by
  cases alike with
  | failed => exact .failed
  | ended same => exact .ended same
  | text below under => exact hiddenAlike below under _ _ _ c
  | @reading mode stack stack' under =>
    cases mode with
    | value first => exact beginAlike under first c
    | name first => exact iteAlike (.reading under) (iteAlike (.reading under) (iteAlike (endObjectAlike under) .failed))
    | colon => exact iteAlike (.reading under) (iteAlike (.reading under) .failed)
    | string naming raw esc => exact stringAlike under naming raw esc c
    | number raw numeral => exact numberAlike under raw numeral c
    | literal left v => exact literalAlike under left v c
    | after => exact afterAlike under c

theorem runAlike {s s'} (alike : Alike secret mask s s') (bs : Bytes) : Alike secret mask (run s bs) (run s' bs) := by
  induction bs generalizing s s' with
  | nil => exact alike
  | cons c bs ih => exact ih (stepAlike alike c)

end Veil
end DevkitCommon.JSON
