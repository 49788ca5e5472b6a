import Mathlib.Algebra.Ring.Int.Defs
import Mathlib.Data.List.Basic

/-! Texts of numbers and of bytes: decimal integers of a fixed width and the padded
base64 of the standard alphabet, written and read back. -/
namespace DevkitCommon.Text

def fits (bits : Nat) (i : Int) : Bool := decide (-(2^(bits-1) : Int) ≤ i ∧ i < 2^(bits-1))

def digits (cs : List Char) : Option Nat :=
  if cs ≠ [] ∧ cs.all Char.isDigit then some (Nat.ofDigitChars 10 cs 0) else none

def signed : List Char → Option Int
  | '-'::cs => (digits cs).map (fun n : Nat => -(n : Int))
  | '+'::cs => (digits cs).map (fun n : Nat => (n : Int))
  | cs => (digits cs).map (fun n : Nat => (n : Int))

def parseInt (bits : Nat) (s : String) : Option Int := (signed s.toList).filter (fits bits)

def formatInt (i : Int) : String := i.repr

theorem digitsRepr (n : Nat) : digits (Nat.toDigits 10 n) = some n := by
  have plain : (Nat.toDigits 10 n).all Char.isDigit = true :=
    List.all_eq_true.mpr (fun c mem => Nat.isDigit_of_mem_toDigits (by decide) (by decide) mem)
  rw [digits,if_pos ⟨Nat.toDigits_ne_nil,plain⟩,Nat.ofDigitChars_ten_toDigits]

theorem signedDigits {cs : List Char} {n : Nat} (read : digits cs = some n) : signed cs = some (n : Int) := by
  have plain : ∀ c ∈ cs, c.isDigit = true := by
    unfold digits at read
    split at read
    · rename_i both
      exact List.all_eq_true.mp both.2
    · contradiction
  unfold signed
  split
  · exact absurd (plain '-' List.mem_cons_self) (by decide)
  · exact absurd (plain '+' List.mem_cons_self) (by decide)
  · rw [read]
    rfl

theorem signedFormat (i : Int) : signed (formatInt i).toList = some i := by
  unfold formatInt
  rw [Int.repr_eq_if]
  split
  · rename_i positive
    rw [Nat.toList_repr,signedDigits (digitsRepr _),Int.toNat_of_nonneg positive]
  · rename_i negative
    rw [String.toList_append,Nat.toList_repr,show "-".toList = ['-'] from rfl,List.singleton_append,signed,
      digitsRepr,Option.map_some,Int.toNat_of_nonneg (by omega),Int.neg_neg]

theorem parseFormat {bits : Nat} {i : Int} (small : fits bits i = true) : parseInt bits (formatInt i) = some i := by
  rw [parseInt,signedFormat,Option.filter_some,small,if_pos rfl]

theorem formatChars (i : Int) : ∀ c ∈ (formatInt i).toList, c.isDigit = true ∨ c = '-' := by
  have plain (n : Nat) : ∀ c ∈ Nat.toDigits 10 n, c.isDigit = true :=
    fun c mem => Nat.isDigit_of_mem_toDigits (by decide) (by decide) mem
  unfold formatInt
  rw [Int.repr_eq_if]
  split
  · rw [Nat.toList_repr]
    exact fun c mem => .inl (plain _ c mem)
  · rw [String.toList_append,Nat.toList_repr]
    intro c mem
    obtain sign | digit := List.mem_append.mp mem
    · exact .inr (List.mem_singleton.mp sign)
    · exact .inl (plain _ c digit)

section Base64

def alphabet : List Char := "ABCDEFGHIJKLMNOPQRSTUVWXYZabcdefghijklmnopqrstuvwxyz0123456789+/".toList

def letter (n : Nat) : Char := alphabet.getD n 'A'
def sextet (c : Char) : Option Nat := alphabet.findIdx? (fun d => d = c)

def encode64 : List UInt8 → List Char
  | [] => []
  | [x] => [letter (x.toNat/4),letter (x.toNat%4*16),'=','=']
  | [x,y] => [letter (x.toNat/4),letter (x.toNat%4*16 + y.toNat/16),letter (y.toNat%16*4),'=']
  | x::y::z::rest =>
    letter (x.toNat/4)::letter (x.toNat%4*16 + y.toNat/16)::letter (y.toNat%16*4 + z.toNat/64)::
      letter (z.toNat%64)::encode64 rest

def quads : List Char → Option (List UInt8)
  | [] => some []
  | [a,b,'=','='] => do
    let a ← sextet a
    let b ← sextet b
    some [UInt8.ofNat (a*4 + b/16)]
  | [a,b,c,'='] => do
    let a ← sextet a
    let b ← sextet b
    let c ← sextet c
    some [UInt8.ofNat (a*4 + b/16),UInt8.ofNat (b%16*16 + c/4)]
  | a::b::c::d::rest => do
    let a ← sextet a
    let b ← sextet b
    let c ← sextet c
    let d ← sextet d
    let more ← quads rest
    some (UInt8.ofNat (a*4 + b/16)::UInt8.ofNat (b%16*16 + c/4)::UInt8.ofNat (c%4*64 + d)::more)
  | _ => none

def decode64 (cs : List Char) : Option (List UInt8) := quads (cs.filter (fun c => c ≠ '\r' ∧ c ≠ '\n'))

theorem sextetLetter : ∀ n, n < 64 → sextet (letter n) = some n := by decide
theorem letterPlain : ∀ n, n < 64 → letter n ≠ '\r' ∧ letter n ≠ '\n' ∧ letter n ≠ '=' := by decide +kernel

theorem byteOfNat {x : UInt8} {n : Nat} (same : n = x.toNat) : UInt8.ofNat n = x := by
  rw [same,UInt8.ofNat_toNat]

theorem quadsEncode (bs : List UInt8) : quads (encode64 bs) = some bs := by
  fun_induction encode64 bs with
  | case1 => rfl
  | case2 x =>
    have hx := x.toNat_lt
    rw [quads,sextetLetter _ (by omega),sextetLetter _ (by omega)]
    exact congrArg (fun x => some [x]) (byteOfNat (by omega))
  | case3 x y =>
    have hx := x.toNat_lt
    have hy := y.toNat_lt
    have last := (letterPlain (y.toNat%16*4) (by omega)).2.2
    rw [quads,sextetLetter _ (by omega),sextetLetter _ (by omega),sextetLetter _ (by omega)]
    · exact congrArg₂ (fun x y => some [x,y]) (byteOfNat (by omega)) (byteOfNat (by omega))
    · exact fun same => absurd same last
  | case4 x y z rest ih =>
    have hx := x.toNat_lt
    have hy := y.toNat_lt
    have hz := z.toNat_lt
    have last := (letterPlain (z.toNat%64) (by omega)).2.2
    rw [quads,sextetLetter _ (by omega),sextetLetter _ (by omega),sextetLetter _ (by omega),
      sextetLetter _ (by omega),ih]
    · exact congrArg₂ (fun x rest => some (x::rest)) (byteOfNat (by omega))
        (congrArg₂ (fun y z => y::z::rest) (byteOfNat (by omega)) (byteOfNat (by omega)))
    · exact fun _ same => absurd same last
    · exact fun same => absurd same last

theorem encodeClean (bs : List UInt8) : ∀ c ∈ encode64 bs, c ≠ '\r' ∧ c ≠ '\n' := by
  have clean : ∀ n, n < 64 → letter n ≠ '\r' ∧ letter n ≠ '\n' :=
    fun n short => ⟨(letterPlain n short).1,(letterPlain n short).2.1⟩
  have pad : '=' ≠ '\r' ∧ '=' ≠ '\n' := by decide
  fun_induction encode64 bs with
  | case1 => exact fun _ mem => absurd mem List.not_mem_nil
  | case2 x =>
    have hx := x.toNat_lt
    simp only [List.forall_mem_cons]
    exact ⟨clean _ (by omega),clean _ (by omega),pad,pad,fun _ mem => absurd mem List.not_mem_nil⟩
  | case3 x y =>
    have hx := x.toNat_lt
    have hy := y.toNat_lt
    simp only [List.forall_mem_cons]
    exact ⟨clean _ (by omega),clean _ (by omega),clean _ (by omega),pad,fun _ mem => absurd mem List.not_mem_nil⟩
  | case4 x y z rest ih =>
    have hx := x.toNat_lt
    have hy := y.toNat_lt
    have hz := z.toNat_lt
    simp only [List.forall_mem_cons]
    exact ⟨clean _ (by omega),clean _ (by omega),clean _ (by omega),clean _ (by omega),ih⟩

theorem decodeEncode (bs : List UInt8) : decode64 (encode64 bs) = some bs := by
  have same : (encode64 bs).filter (fun c => c ≠ '\r' ∧ c ≠ '\n') = encode64 bs :=
    List.filter_eq_self.mpr (fun c mem => by simpa using encodeClean bs c mem)
  rw [decode64,same,quadsEncode]

example : decode64 "aGkh\n".toList = some [104,105,33] := by decide

end Base64
section Utf8

def inRange (lo hi : Nat) (b : UInt8) : Bool := decide (lo ≤ b.toNat ∧ b.toNat ≤ hi)
def tail (b : UInt8) : Bool := inRange 0x80 0xBF b

/- What the second byte of a character may be, by the first, and how many bytes the
character has; none of a byte that starts no longer one. -/
def leads (b : UInt8) : Option (Nat × Nat × Nat) :=
  if inRange 0xC2 0xDF b then some (2,0x80,0xBF)
  else if b = 0xE0 then some (3,0xA0,0xBF)
  else if b = 0xED then some (3,0x80,0x9F)
  else if inRange 0xE1 0xEF b then some (3,0x80,0xBF)
  else if b = 0xF0 then some (4,0x90,0xBF)
  else if inRange 0xF1 0xF3 b then some (4,0x80,0xBF)
  else if b = 0xF4 then some (4,0x80,0x8F)
  else none

def scalar (size : Nat) (b : UInt8) (more : List UInt8) : Char :=
  let first := if size = 2 then b.toNat%32 else if size = 3 then b.toNat%16 else b.toNat%8
  Char.ofNat (more.foldl (fun n c => 64*n + c.toNat%64) first)

/- The first character and the bytes it takes: a byte that starts none is U+FFFD alone. -/
def rune (b : UInt8) (rest : List UInt8) : Char × Nat :=
  if b.toNat < 0x80 then (Char.ofNat b.toNat,1)
  else match leads b with
    | none => (Char.ofNat 0xFFFD,1)
    | some (size,lo,hi) =>
      let more := rest.take (size-1)
      if more.length = size-1 ∧ (more.head?.any (inRange lo hi)) ∧ (more.drop 1).all tail then (scalar size b more,size)
      else (Char.ofNat 0xFFFD,1)

def runesFrom : Nat → List UInt8 → List Char
  | _, [] => []
  | 0, b::rest => (rune b rest).1::runesFrom ((rune b rest).2 - 1) rest
  | skip+1, _::rest => runesFrom skip rest

def runes (bs : List UInt8) : List Char := runesFrom 0 bs

example : runes [0x61,0xE2,0x82,0xAC,0xFF,0xED,0xA0,0x80,0x62] =
    ['a','€',Char.ofNat 0xFFFD,Char.ofNat 0xFFFD,Char.ofNat 0xFFFD,Char.ofNat 0xFFFD,'b'] := by decide

end Utf8
section Quote

def padded (width n : Nat) : List Char := (Nat.toDigits 16 n).leftpad width '0'

/- What strconv.Quote makes of a character; which of those beyond ASCII are printable is unicode's. -/
def quoteChar (printable : Char → Bool) (c : Char) : List Char :=
  let n := c.toNat
  if c = '"' ∨ c = '\\' then ['\\',c]
  else if if n < 128 then decide (0x20 ≤ n ∧ n < 0x7F) else printable c then [c]
  else if n = 0x07 then ['\\','a']
  else if n = 0x08 then ['\\','b']
  else if n = 0x0C then ['\\','f']
  else if n = 0x0A then ['\\','n']
  else if n = 0x0D then ['\\','r']
  else if n = 0x09 then ['\\','t']
  else if n = 0x0B then ['\\','v']
  else if n < 0x20 ∨ n = 0x7F then '\\' :: 'x' :: padded 2 n
  else if n < 0x10000 then '\\' :: 'u' :: padded 4 n
  else '\\' :: 'U' :: padded 8 n

def quoteWith (printable : Char → Bool) (s : String) : String :=
  String.ofList ('"' :: (s.toList.flatMap (quoteChar printable) ++ ['"']))

def quote (s : String) : String := quoteWith (fun _ => true) s

end Quote
section Cut
variable {sep : Char}

theorem cutSplits {s : List Char} (found : (s.dropWhile (fun c => c != sep)).drop 1 ≠ []) :
    s = s.takeWhile (fun c => c != sep) ++ sep::(s.dropWhile (fun c => c != sep)).drop 1 ∧
      sep ∉ s.takeWhile (fun c => c != sep) := by
  constructor
  · cases rest : s.dropWhile (fun c => c != sep) with
    | nil =>
      rw [rest] at found
      exact absurd rfl found
    | cons x back =>
      have head : (x != sep) = false := by
        have first := List.head?_dropWhile_not (fun c => c != sep) s
        rw [rest] at first
        simpa using first
      have same : x = sep := by simpa using head
      have whole := List.takeWhile_append_dropWhile (p := fun c => c != sep) (l := s)
      rw [rest,same] at whole
      exact whole.symm
  · intro mem
    have other := List.all_eq_true.mp List.all_takeWhile sep mem
    simp at other

end Cut
section Once
variable {α : Type} {sep : α} {a b p q : List α}

theorem cutUnique (outA : sep ∉ a) (outB : sep ∉ b) (same : a ++ sep::p = b ++ sep::q) : a = b ∧ p = q := by
  induction a generalizing b with
  | nil =>
    cases b with
    | nil => exact ⟨rfl,(List.cons.inj same).2⟩
    | cons y b => exact absurd (List.mem_cons.mpr (.inl (List.cons.inj same).1)) outB
  | cons x a ih =>
    cases b with
    | nil => exact absurd (List.mem_cons.mpr (.inl (List.cons.inj same).1.symm)) outA
    | cons y b =>
      obtain ⟨rfl,rest⟩ := List.cons.inj same
      have tails := ih (fun mem => outA (List.mem_cons_of_mem _ mem)) (fun mem => outB (List.mem_cons_of_mem _ mem)) rest
      exact ⟨by rw [tails.1],tails.2⟩

theorem cutLast (outP : sep ∉ p) (outQ : sep ∉ q) (same : a ++ sep::p = b ++ sep::q) : a = b ∧ p = q := by
  have turned : p.reverse ++ sep::a.reverse = q.reverse ++ sep::b.reverse := by
    simpa using congrArg List.reverse same
  obtain ⟨tails,heads⟩ := cutUnique (by simpa using outP) (by simpa using outQ) turned
  exact ⟨List.reverse_inj.mp heads,List.reverse_inj.mp tails⟩

end Once
end DevkitCommon.Text
