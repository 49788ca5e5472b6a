import DevkitCommon.Lib.Text
import DevkitCommon.Lib.Words
import Mathlib

/-! The parts of a password hash's text: numbers behind names, and bytes in base64 without padding.
What is written is read back. -/
namespace DevkitCommon.PHC
open Text (letter sextet sextetLetter letterPlain byteOfNat digits)
open Words

section Raw

def encodeRaw : List UInt8 → Words.Text
  | [] => []
  | [x] => [letter (x.toNat/4),letter (x.toNat%4*16)]
  | [x,y] => [letter (x.toNat/4),letter (x.toNat%4*16 + y.toNat/16),letter (y.toNat%16*4)]
  | x::y::z::rest =>
    letter (x.toNat/4)::letter (x.toNat%4*16 + y.toNat/16)::letter (y.toNat%16*4 + z.toNat/64)::
      letter (z.toNat%64)::encodeRaw rest

/- The bits a last letter has over its bytes are not looked at. -/
def groups : Words.Text → Option (List UInt8)
  | [] => some []
  | [_] => none
  | [a,b] => do
    let a ← sextet a
    let b ← sextet b
    some [UInt8.ofNat (a*4 + b/16)]
  | [a,b,c] => do
    let a ← sextet a
    let b ← sextet b
    let c ← sextet c
    some [UInt8.ofNat (a*4 + b/16),UInt8.ofNat (b%16*16 + c/4)]
  | a::b::c::d::rest => do
    let a ← sextet a
    let b ← sextet b
    let c ← sextet c
    let d ← sextet d
    let more ← groups rest
    some (UInt8.ofNat (a*4 + b/16)::UInt8.ofNat (b%16*16 + c/4)::UInt8.ofNat (c%4*64 + d)::more)

def decodeRaw (cs : Words.Text) : Option (List UInt8) := groups (cs.filter (fun c => c ≠ '\r' ∧ c ≠ '\n'))

theorem groupsEncode (bs : List UInt8) : groups (encodeRaw bs) = some bs := by
  fun_induction encodeRaw bs with
  | case1 => rfl
  | case2 x =>
    have hx := x.toNat_lt
    rw [groups,sextetLetter _ (by omega),sextetLetter _ (by omega)]
    exact congrArg (fun x => some [x]) (byteOfNat (by omega))
  | case3 x y =>
    have hx := x.toNat_lt
    have hy := y.toNat_lt
    rw [groups,sextetLetter _ (by omega),sextetLetter _ (by omega),sextetLetter _ (by omega)]
    exact congrArg₂ (fun x y => some [x,y]) (byteOfNat (by omega)) (byteOfNat (by omega))
  | case4 x y z rest ih =>
    have hx := x.toNat_lt
    have hy := y.toNat_lt
    have hz := z.toNat_lt
    rw [groups,sextetLetter _ (by omega),sextetLetter _ (by omega),sextetLetter _ (by omega),
      sextetLetter _ (by omega),ih]
    exact congrArg₂ (fun x rest => some (x::rest)) (byteOfNat (by omega))
      (congrArg₂ (fun y z => y::z::rest) (byteOfNat (by omega)) (byteOfNat (by omega)))

theorem encodeLetters (bs : List UInt8) : ∀ c ∈ encodeRaw bs, ∃ n < 64, c = letter n := by
  fun_induction encodeRaw bs with
  | case1 => exact fun _ mem => absurd mem List.not_mem_nil
  | case2 x =>
    have hx := x.toNat_lt
    simp only [List.forall_mem_cons]
    exact ⟨⟨_,by omega,rfl⟩,⟨_,by omega,rfl⟩,fun _ mem => absurd mem List.not_mem_nil⟩
  | case3 x y =>
    have hx := x.toNat_lt
    have hy := y.toNat_lt
    simp only [List.forall_mem_cons]
    exact ⟨⟨_,by omega,rfl⟩,⟨_,by omega,rfl⟩,⟨_,by omega,rfl⟩,fun _ mem => absurd mem List.not_mem_nil⟩
  | case4 x y z rest ih =>
    have hx := x.toNat_lt
    have hy := y.toNat_lt
    have hz := z.toNat_lt
    simp only [List.forall_mem_cons]
    exact ⟨⟨_,by omega,rfl⟩,⟨_,by omega,rfl⟩,⟨_,by omega,rfl⟩,⟨_,by omega,rfl⟩,ih⟩

theorem decodeEncodeRaw (bs : List UInt8) : decodeRaw (encodeRaw bs) = some bs := by
  have same : (encodeRaw bs).filter (fun c => c ≠ '\r' ∧ c ≠ '\n') = encodeRaw bs := by
    refine List.filter_eq_self.mpr (fun c mem => ?_)
    obtain ⟨n,small,rfl⟩ := encodeLetters bs c mem
    have plain := letterPlain n small
    simpa using ⟨plain.1,plain.2.1⟩
  rw [decodeRaw,same,groupsEncode]

end Raw
section Scan

/- A %d: blanks before it are skipped, a line's end is an error, and the number must fit its bits. -/
def scanNumber (bits : Nat) (t : Words.Text) : Option (Nat × Words.Text) :=
  let rest := t.dropWhile space
  if '\n' ∈ t.takeWhile space then none
  else ((digits (rest.takeWhile Char.isDigit)).filter (fun n => decide (n < 2^bits))).map
    (fun n => (n,rest.dropWhile Char.isDigit))

/- A text before each %d; what comes after the last is not read. -/
def scan : List (Words.Text × Nat) → Words.Text → Option (List Nat)
  | [], _ => some []
  | (name,bits)::more, t =>
    if name <+: t then do
      let (n,rest) ← scanNumber bits (t.drop name.length)
      let ns ← scan more rest
      some (n::ns)
    else none

def print (fields : List (Words.Text × Nat × Nat)) : Words.Text :=
  fields.flatMap (fun f => f.1 ++ Nat.toDigits 10 f.2.2)

def Stops (t : Words.Text) : Prop := ∀ c ∈ t.head?, c.isDigit = false

theorem digitBlank {c : Char} (digit : c.isDigit = true) : space c = false := by
  have ascii : c.toNat < 128 := by
    have high : c ≤ '9' := by
      simp only [Char.isDigit,Bool.and_eq_true,decide_eq_true_eq] at digit
      exact digit.2
    have upTo : c.toNat ≤ 57 := UInt32.le_iff_toNat_le.mp high
    omega
  revert digit
  exact forASCII (p := fun c => c.isDigit = true → space c = false) (by decide) ascii

theorem takeDigits {ds rest : Words.Text} (all : ∀ c ∈ ds, c.isDigit = true) (stops : Stops rest) :
    (ds ++ rest).takeWhile Char.isDigit = ds ∧ (ds ++ rest).dropWhile Char.isDigit = rest := by
  rw [List.takeWhile_append_of_pos all,List.dropWhile_append_of_pos all]
  cases rest with
  | nil => exact ⟨List.append_nil ds,rfl⟩
  | cons c rest =>
    have other := stops c rfl
    simp [other]

theorem scanDigits {bits n : Nat} {rest : Words.Text} (small : n < 2^bits) (stops : Stops rest) :
    scanNumber bits (Nat.toDigits 10 n ++ rest) = some (n,rest) := by
  have all : ∀ c ∈ Nat.toDigits 10 n, c.isDigit = true :=
    fun c mem => Nat.isDigit_of_mem_toDigits (by decide) (by decide) mem
  obtain ⟨c,ds,shape⟩ := List.exists_cons_of_ne_nil (Nat.toDigits_ne_nil (n := n) (b := 10))
  have first : space c = false := digitBlank (all c (shape ▸ List.mem_cons_self))
  have front : (Nat.toDigits 10 n ++ rest).takeWhile space = [] := by
    rw [shape]
    simp [first]
  have back : (Nat.toDigits 10 n ++ rest).dropWhile space = Nat.toDigits 10 n ++ rest := by
    rw [shape]
    simp [first]
  obtain ⟨taken,left⟩ := takeDigits all stops
  simp only [scanNumber,front,back,taken,left,Text.digitsRepr,List.not_mem_nil,if_false,Option.filter_some,
    decide_eq_true small,if_true,Option.map_some]

theorem printStops {fields : List (Words.Text × Nat × Nat)}
    (named : ∀ f ∈ fields, ∃ c more, f.1 = c::more ∧ c.isDigit = false) : Stops (print fields) := by
  cases fields with
  | nil => exact fun c none => nomatch none
  | cons f fields =>
    obtain ⟨c,more,name,other⟩ := named f List.mem_cons_self
    intro d first
    rw [print,List.flatMap_cons,name] at first
    cases Option.some.inj first
    exact other

theorem scanPrinted {fields : List (Words.Text × Nat × Nat)}
    (named : ∀ f ∈ fields, ∃ c more, f.1 = c::more ∧ c.isDigit = false) (small : ∀ f ∈ fields, f.2.2 < 2^f.2.1) :
    scan (fields.map (fun f => (f.1,f.2.1))) (print fields) = some (fields.map (fun f => f.2.2)) := by
  induction fields with
  | nil => rfl
  | cons f fields ih =>
    obtain ⟨_,namedRest⟩ := List.forall_mem_cons.mp named
    obtain ⟨fits,smallRest⟩ := List.forall_mem_cons.mp small
    have whole : print (f::fields) = f.1 ++ (Nat.toDigits 10 f.2.2 ++ print fields) := by
      rw [print,List.flatMap_cons,List.append_assoc]
      rfl
    have number := scanDigits fits (printStops namedRest)
    rw [whole,List.map_cons,scan,if_pos (List.prefix_append _ _),List.drop_left,number]
    simp only [bind,Option.bind_some,ih namedRest smallRest,List.map_cons]

end Scan
end DevkitCommon.PHC
