import DevkitCommon.Lib.JSON
import DevkitCommon.Lib.Words
import Mathlib.Data.List.Basic

/-! What stands between double quotes in a YAML document: where it ends and what it is read as.
It is read as itself exactly where nothing of it is escaped, and a reader that does not look into
it finds around it what it finds around any other. -/
namespace DevkitCommon.Quoted
open Words
open JSON (hexDigit)

def lineBreak (c : Char) : Bool := c == '\n' || c == '\r' || c.toNat == 0x85 || c.toNat == 0x2028 || c.toNat == 0x2029

def closedFrom : Bool → Text → Bool
  | escaped,[] => !escaped
  | escaped,c::rest => !lineBreak c && if escaped then closedFrom false rest else c != '"' && closedFrom (c == '\\') rest

def closed (t : Text) : Bool := closedFrom false t

def escapes : List (Char × Nat) := [('0',0x00),('a',0x07),('b',0x08),('t',0x09),('\t',0x09),('n',0x0A),('v',0x0B),
  ('f',0x0C),('r',0x0D),('e',0x1B),(' ',0x20),('"',0x22),('\'',0x27),('/',0x2F),('\\',0x5C),('N',0x85),('_',0xA0),
  ('L',0x2028),('P',0x2029)]

def digits (c : Char) : Nat := if c = 'x' then 2 else if c = 'u' then 4 else if c = 'U' then 8 else 0

def hex (t : Text) : Option Nat := t.foldl (fun n c => n.bind fun n => (hexDigit c).map (16*n + ·)) (some 0)

def escapeAt : Text → Option (Char × Nat)
  | [] => none
  | c::rest => match escapes.lookup c with
    | some n => some (Char.ofNat n,1)
    | none =>
      if 0 < digits c ∧ digits c ≤ rest.length then
        (hex (rest.take (digits c))).bind fun n => if n.isValidChar then some (Char.ofNat n,digits c + 1) else none
      else none

def unescapeFrom : Nat → Text → Option Text
  | _,[] => some []
  | skip + 1,_::rest => unescapeFrom skip rest
  | 0,c::rest =>
    if c = '\\' then (escapeAt rest).bind fun e => (unescapeFrom e.2 rest).map (e.1::·)
    else (unescapeFrom 0 rest).map (c::·)

def unescape (t : Text) : Option Text := unescapeFrom 0 t

section Reading
variable {s t : Text} {n : Nat} {e : Char × Nat}

theorem unescapePlain (plain : '\\' ∉ t) : unescape t = some t := by
  unfold unescape
  induction t with
  | nil => rfl
  | cons c t ih =>
    have other : c ≠ '\\' := fun same => plain (same ▸ List.mem_cons_self)
    rw [unescapeFrom,if_neg other,ih fun mem => plain (List.mem_cons_of_mem c mem)]
    rfl

theorem escapeLength (is : escapeAt t = some e) : 1 ≤ e.2 ∧ e.2 ≤ t.length := by
  cases t with
  | nil => cases is
  | cons c t =>
    rw [escapeAt] at is
    split at is
    · obtain rfl := Option.some.inj is
      exact ⟨Nat.le_refl 1,Nat.succ_le_succ (Nat.zero_le _)⟩
    · split at is
      · rename_i fits
        obtain ⟨n,_,made⟩ := Option.bind_eq_some_iff.mp is
        split at made
        · obtain rfl := Option.some.inj made
          exact ⟨Nat.succ_pos _,Nat.succ_le_succ fits.2⟩
        · cases made
      · cases is

theorem readShorter (fits : n ≤ t.length) (is : unescapeFrom n t = some s) :
    s.length + n ≤ t.length ∧ ('\\' ∈ t.drop n → s.length + n < t.length) := by
  induction t generalizing n s with
  | nil =>
    obtain rfl : n = 0 := Nat.le_zero.mp fits
    obtain rfl := Option.some.inj is
    exact ⟨Nat.le_refl 0,fun mem => absurd mem List.not_mem_nil⟩
  | cons c t ih =>
    cases n with
    | succ n =>
      obtain ⟨most,less⟩ := ih (Nat.le_of_succ_le_succ fits) is
      exact ⟨Nat.succ_le_succ most,fun mem => Nat.succ_lt_succ (less mem)⟩
    | zero =>
      rw [unescapeFrom] at is
      split at is
      · obtain ⟨e,here,more⟩ := Option.bind_eq_some_iff.mp is
        obtain ⟨rest,read,rfl⟩ := Option.map_eq_some_iff.mp more
        obtain ⟨pos,within⟩ := escapeLength here
        have most := (ih within read).1
        have shorter : (e.1::rest).length < (c::t).length := by
          rw [List.length_cons,List.length_cons]
          omega
        exact ⟨Nat.le_of_lt shorter,fun _ => shorter⟩
      · rename_i other
        obtain ⟨rest,read,rfl⟩ := Option.map_eq_some_iff.mp is
        obtain ⟨most,less⟩ := ih (Nat.zero_le _) read
        refine ⟨Nat.succ_le_succ most,fun mem => Nat.succ_lt_succ (less ?_)⟩
        exact (List.mem_cons.mp mem).resolve_left (Ne.symm other)

theorem unescapeSame : unescape t = some t ↔ '\\' ∉ t := by
  constructor
  · intro is mem
    exact Nat.lt_irrefl _ ((readShorter (Nat.zero_le _) is).2 mem)
  · exact unescapePlain

def inert (t : Text) : Bool := t.all fun c => c != '\\' && c != '"' && !lineBreak c

theorem inertIff : inert t = true ↔ closed t = true ∧ '\\' ∉ t := by
  unfold inert closed
  induction t with
  | nil => exact iff_of_true rfl ⟨rfl,List.not_mem_nil⟩
  | cons c t ih =>
    rw [List.all_cons,closedFrom,Bool.and_eq_true,ih,List.mem_cons,not_or,if_neg Bool.false_ne_true]
    by_cases slash : c = '\\'
    · subst slash
      exact iff_of_false (fun both => absurd both.1 (by decide)) fun both => both.2.1 rfl
    · have plain : (c == '\\') = false := beq_false_of_ne slash
      have marked : (c != '\\') = true := bne_iff_ne.mpr slash
      rw [plain,marked]
      simp only [Bool.true_and,Bool.and_eq_true]
      tauto

end Reading
section Readers

inductive Token (α : Type) where
  | char (c : Char)
  | quoted (content : α)
  deriving DecidableEq, Repr

inductive Scalar (α : Type) where
  | quoted (content : α)
  | plain (t : Text)
  deriving DecidableEq, Repr

inductive Step (α : Type) where
  | key (name : Scalar α)
  | item (index : Nat)
  deriving DecidableEq, Repr

structure Leaf (α : Type) where
  place : List (Step α)
  value : Scalar α
  deriving DecidableEq, Repr

variable {α β : Type}

def Token.map (f : α → β) : Token α → Token β
  | .char c => .char c
  | .quoted content => .quoted (f content)

def Scalar.map (f : α → β) : Scalar α → Scalar β
  | .quoted content => .quoted (f content)
  | .plain t => .plain t

def Step.map (f : α → β) : Step α → Step β
  | .key name => .key (name.map f)
  | .item index => .item index

def Leaf.map (f : α → β) (field : Leaf α) : Leaf β := ⟨field.place.map (Step.map f),field.value.map f⟩

def Scalar.contents : Scalar α → List α
  | .quoted content => [content]
  | .plain _ => []

def Step.contents : Step α → List α
  | .key name => name.contents
  | .item _ => []

def Leaf.contents (field : Leaf α) : List α := field.place.flatMap Step.contents ++ field.value.contents

/- A reader of YAML. Which double quotes begin a scalar follows from what stands before them outside
of other such scalars, and of what these say nothing is known to what makes a document of them. -/
structure Reader where
  Control : Type
  start : Control
  opens : Control → Bool
  next : Control → Char → Control
  behind : Control → Control
  content : Text → Option Text
  compose {α : Type} : List (Token α) → Except String (List (Leaf α))
  malformed : Text → String
  refuses : Text → List (Leaf Text) → Option String
  oneLine : ∀ t value, closed t = true → content t = some value → unescape t = some value
  blind : ∀ {α β : Type} (f : α → β) (ts : List (Token α)),
    compose (ts.map (Token.map f)) = (compose ts).map (List.map (Leaf.map f))

/- A scalar in quotes ends at the first quote that no backslash stands before. What is no letter
yet may only stand inside of one. -/
def Reader.scan (yaml : Reader) (letter : β → Option Char) :
    yaml.Control → Option (List β × Bool) → List β → Option (List (Token (List β)))
  | _,none,[] => some []
  | _,some _,[] => none
  | control,none,b::rest => (letter b).bind fun c =>
    if c = '"' ∧ yaml.opens control = true then yaml.scan letter control (some ([],false)) rest
    else (yaml.scan letter (yaml.next control c) none rest).map (.char c::·)
  | control,some (content,true),b::rest =>
    (letter b).bind fun _ => yaml.scan letter control (some (content ++ [b],false)) rest
  | control,some (content,false),b::rest =>
    if letter b = some '"' then (yaml.scan letter (yaml.behind control) none rest).map (.quoted content::·)
    else yaml.scan letter control (some (content ++ [b],letter b == some '\\')) rest

def Reader.read (yaml : Reader) : Token Text → Option (Token Text)
  | .char c => some (.char c)
  | .quoted content => (yaml.content content).map .quoted

def Reader.unmarshal (yaml : Reader) (text : Text) : Except String (List (Leaf Text)) :=
  match (yaml.scan some yaml.start none text).bind fun ts => ts.mapM yaml.read with
  | none => .error (yaml.malformed text)
  | some ts => match yaml.compose ts with
    | .error err => .error err
    | .ok doc => match yaml.refuses text doc with
      | some err => .error err
      | none => .ok doc

end Readers
section Filled
variable {β : Type} {yaml : Reader} {letter : β → Option Char} {fill : β → Text} {ts : List (Token (List β))}
  {fields : List (Leaf (List β))} {doc : List (Leaf Text)} {text : List β}

theorem scanClosed {control : yaml.Control} {content t : Text} {escaped : Bool} (closes : closedFrom escaped t = true) (rest : Text) :
    yaml.scan some control (some (content,escaped)) (t ++ rest) = yaml.scan some control (some (content ++ t,false)) rest := by
  induction t generalizing content escaped with
  | nil =>
    obtain rfl : escaped = false := by simpa [closedFrom] using closes
    rw [List.append_nil,List.nil_append]
  | cons c t ih =>
    rw [closedFrom,Bool.and_eq_true] at closes
    have more := closes.2
    have joined : content ++ c::t = content ++ [c] ++ t := by rw [List.append_assoc]; rfl
    rw [List.cons_append,joined]
    cases escaped with
    | true => exact ih more
    | false =>
      rw [if_neg Bool.false_ne_true,Bool.and_eq_true,bne_iff_ne] at more
      exact (if_neg fun quote => more.1 (Option.some.inj quote)).trans (ih more.2)

theorem scanFill (same : ∀ b c, letter b = some c → fill b = [c]) (inside : ∀ b ∈ text, letter b = none → closed (fill b) = true)
    {control : yaml.Control} {open' : Option (List β × Bool)} (is : yaml.scan letter control open' text = some ts) :
    yaml.scan some control (open'.map fun p => (p.1.flatMap fill,p.2)) (text.flatMap fill) =
      some (ts.map (Token.map (List.flatMap fill))) := by
  induction text generalizing control open' ts with
  | nil =>
    cases open' with
    | none =>
      obtain rfl := Option.some.inj is
      rfl
    | some p => cases is
  | cons b rest ih =>
    have inside' : ∀ b ∈ rest, letter b = none → closed (fill b) = true := fun b mem => inside b (List.mem_cons_of_mem _ mem)
    rw [List.flatMap_cons]
    cases open' with
    | none =>
      obtain ⟨c,known,cut⟩ := Option.bind_eq_some_iff.mp is
      rw [same b c known,List.singleton_append,Option.map_none,Reader.scan,Option.bind_some]
      split at cut
      · rename_i begins
        rw [if_pos begins]
        exact ih inside' cut
      · rename_i other
        obtain ⟨more,later,rfl⟩ := Option.map_eq_some_iff.mp cut
        have read := ih inside' later
        rw [Option.map_none] at read
        rw [if_neg other,read]
        rfl
    | some p =>
      obtain ⟨content,escaped⟩ := p
      have joined : (content ++ [b]).flatMap fill = content.flatMap fill ++ fill b := by
        rw [List.flatMap_append,List.flatMap_singleton]
      cases escaped with
      | true =>
        obtain ⟨c,known,cut⟩ := Option.bind_eq_some_iff.mp is
        have later := ih inside' cut
        rw [same b c known] at joined ⊢
        rwa [Option.map_some,joined] at later
      | false =>
        rw [Reader.scan] at is
        cases known : letter b with
        | none =>
          rw [known,if_neg (Option.some_ne_none _).symm] at is
          have later := ih inside' is
          rw [Option.map_some,joined] at later
          exact (scanClosed (inside b List.mem_cons_self known) _).trans later
        | some c =>
          rw [known] at is
          rw [same b c known] at joined ⊢
          rw [List.singleton_append,Option.map_some,Reader.scan]
          split at is
          · rename_i ends
            obtain ⟨more,later,rfl⟩ := Option.map_eq_some_iff.mp is
            have read := ih inside' later
            rw [Option.map_none] at read
            rw [if_pos ends,read]
            rfl
          · rename_i other
            have later := ih inside' is
            rw [Option.map_some,joined] at later
            rwa [if_neg other]

end Filled
section Composed
variable {α β : Type} {yaml : Reader} {letter : β → Option Char} {fill : β → Text} {text : List β}

theorem scalarSame {f g : α → β} {s : Scalar α} (same : ∀ a ∈ s.contents, f a = g a) : s.map f = s.map g := by
  cases s with
  | quoted a => exact congrArg Scalar.quoted (same a List.mem_cons_self)
  | plain t => rfl

theorem fieldSame {f g : α → β} {field : Leaf α} (same : ∀ a ∈ field.contents, f a = g a) : field.map f = field.map g := by
  have steps : field.place.map (Step.map f) = field.place.map (Step.map g) := by
    refine List.map_congr_left fun step mem => ?_
    cases step with
    | item index => rfl
    | key name =>
      refine congrArg Step.key (scalarSame fun a inside => ?_)
      exact same a (List.mem_append_left _ (List.mem_flatMap.mpr ⟨_,mem,inside⟩))
  rw [Leaf.map,Leaf.map,steps,scalarSame fun a inside => same a (List.mem_append_right _ inside)]

theorem composedFrom {ts : List (Token α)} {fields : List (Leaf α)} {field : Leaf α} {a : α}
    (composed : yaml.compose ts = .ok fields) (mem : field ∈ fields) (is : field.value = .quoted a) : .quoted a ∈ ts := by
  classical
  let marked (b : α) : α × Bool := (b,true)
  let checked (b : α) : α × Bool := (b,decide (Token.quoted b ∈ ts))
  have same : ts.map (Token.map marked) = ts.map (Token.map checked) := by
    refine List.map_congr_left fun t inside => ?_
    cases t with
    | char c => rfl
    | quoted b => exact congrArg (fun x => Token.quoted (b,x)) (decide_eq_true inside).symm
  have left := yaml.blind marked ts
  rw [same,yaml.blind checked,composed] at left
  have alike := List.map_inj_left.mp (Except.ok.inj left) field mem
  have values : field.value.map checked = field.value.map marked := congrArg Leaf.value alike
  rw [is] at values
  exact of_decide_eq_true (congrArg Prod.snd (Scalar.quoted.inj values))

theorem readMapped {h : α → Text} {ts : List (Token α)} {rs : List (Token Text)} (is : (ts.map (Token.map h)).mapM yaml.read = some rs) :
    rs = ts.map (Token.map fun a => (yaml.content (h a)).getD []) ∧ ∀ a, .quoted a ∈ ts → ∃ value, yaml.content (h a) = some value := by
  induction ts generalizing rs with
  | nil =>
    obtain rfl := Option.some.inj is
    exact ⟨rfl,fun a mem => absurd mem List.not_mem_nil⟩
  | cons t ts ih =>
    rw [List.map_cons,List.mapM_cons] at is
    obtain ⟨r,first,is⟩ := Option.bind_eq_some_iff.mp is
    obtain ⟨rest,more,last⟩ := Option.bind_eq_some_iff.mp is
    obtain rfl := Option.some.inj last
    obtain ⟨rfl,all⟩ := ih more
    cases t with
    | char c =>
      obtain rfl := Option.some.inj first
      exact ⟨rfl,fun a mem => all a ((List.mem_cons.mp mem).resolve_left fun e => by cases e)⟩
    | quoted b =>
      obtain ⟨value,content,rfl⟩ := Option.map_eq_some_iff.mp first
      refine ⟨?_,fun a mem => ?_⟩
      · rw [List.map_cons,Token.map,content]
        rfl
      · rcases List.mem_cons.mp mem with here | later
        · exact ⟨value,Token.quoted.inj here ▸ content⟩
        · exact all a later

theorem unmarshalFill {ts : List (Token (List β))} {fields : List (Leaf (List β))} {doc : List (Leaf Text)}
    (same : ∀ b c, letter b = some c → fill b = [c]) (inside : ∀ b ∈ text, letter b = none → closed (fill b) = true)
    (scanned : yaml.scan letter yaml.start none text = some ts) (composed : yaml.compose ts = .ok fields)
    (is : yaml.unmarshal (text.flatMap fill) = .ok doc) :
    doc = fields.map (Leaf.map fun content => (yaml.content (content.flatMap fill)).getD []) ∧
      ∀ content, .quoted content ∈ ts → ∃ value, yaml.content (content.flatMap fill) = some value := by
  have cut := scanFill same inside scanned
  rw [Option.map_none] at cut
  rw [Reader.unmarshal,cut,Option.bind_some] at is
  cases read : (ts.map (Token.map (List.flatMap fill))).mapM yaml.read with
  | none =>
    rw [read] at is
    cases is
  | some rs =>
    obtain ⟨rfl,all⟩ := readMapped read
    refine ⟨?_,all⟩
    rw [read] at is
    dsimp only at is
    rw [yaml.blind,composed] at is
    dsimp only [Except.map] at is
    split at is
    · cases is
    · exact (Except.ok.inj is).symm

end Composed
end DevkitCommon.Quoted
