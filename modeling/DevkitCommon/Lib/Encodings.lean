import DevkitCommon.Lib.JSON
import DevkitCommon.Lib.Words

/-! Texts of bytes and the case of their letters: in hex it says nothing, in base64 two texts
that differ only in case are not the texts of the same bytes. -/
namespace DevkitCommon.Encodings
open JSON (hexDigit hexLetter)
open Text (alphabet letter sextet encode64 quads decode64)
open Words

def hex (bs : List UInt8) : List Char := bs.flatMap (fun b => [hexLetter (b.toNat/16),hexLetter (b.toNat%16)])

def unhex : List Char → Option (List UInt8)
  | [] => some []
  | [_] => none
  | a::b::rest => do
    let x ← hexDigit a
    let y ← hexDigit b
    let more ← unhex rest
    some (UInt8.ofNat (16*x + y)::more)

section Hex

theorem digitSmall {c : Char} {k : Nat} (read : hexDigit c = some k) : k < 16 ∧ c.toNat < 128 := by
  have upTo {c d : Char} (le : c ≤ d) : c.toNat ≤ d.toNat := UInt32.le_iff_toNat_le.mp le
  unfold hexDigit at read
  split at read
  · rename_i decimal
    have top : c.toNat ≤ 57 := upTo decimal.2
    cases read
    exact ⟨by simp; omega,by omega⟩
  · split at read
    · rename_i lower
      have top : c.toNat ≤ 102 := upTo lower.2
      cases read
      exact ⟨by simp; omega,by omega⟩
    · split at read
      · rename_i upper
        have top : c.toNat ≤ 70 := upTo upper.2
        cases read
        exact ⟨by simp; omega,by omega⟩
      · cases read

theorem letterSmall : ∀ k < 16, (hexLetter k).toNat < 128 := by decide

theorem digitLower [Letters] (c : Char) {k : Nat} (small : k < 16) : lowerChar c = hexLetter k ↔ hexDigit c = some k := by
  by_cases ascii : c.toNat < 128
  · have all : ∀ n < 128, ∀ k < 16, (Char.ofNat n).toLower = hexLetter k ↔ hexDigit (Char.ofNat n) = some k := by
      decide +kernel
    rw [lowerASCII ascii]
    exact forASCII (p := fun c => ∀ k < 16, c.toLower = hexLetter k ↔ hexDigit c = some k) all ascii k small
  · have unread : hexDigit c ≠ some k := fun read => ascii (digitSmall read).2
    refine iff_of_false (fun same => ?_) unread
    have kelvin : ∀ k < 16, 'k' ≠ hexLetter k := by decide
    have dotted : ∀ k < 16, 'i' ≠ hexLetter k := by decide
    obtain ascii' | far | low | low := lowerCases c
    · exact ascii ascii'
    · have letter := letterSmall k small
      rw [← same] at letter
      omega
    · exact kelvin k small (low.symm.trans same)
    · exact dotted k small (low.symm.trans same)

theorem byteDigits (b : UInt8) : UInt8.ofNat (16*(b.toNat/16) + b.toNat%16) = b := by
  rw [Nat.div_add_mod,UInt8.ofNat_toNat]

theorem unhexLower [Letters] (cs : List Char) (bs : List UInt8) : toLower cs = hex bs ↔ unhex cs = some bs := by
  induction cs using unhex.induct generalizing bs with
  | case1 =>
    cases bs with
    | nil => exact iff_of_true rfl rfl
    | cons b bs => exact iff_of_false (fun same => nomatch same) (fun same => nomatch same)
  | case2 c =>
    refine iff_of_false (fun same => ?_) (fun same => nomatch same)
    cases bs with
    | nil => cases same
    | cons b bs => cases (List.cons.inj same).2
  | case3 a b rest ih =>
    cases bs with
    | nil =>
      refine iff_of_false (fun same => nomatch same) (fun read => ?_)
      simp only [unhex,bind,Option.bind_eq_some_iff] at read
      obtain ⟨_,_,_,_,_,_,same⟩ := read
      cases same
    | cons x bs =>
      have hx := x.toNat_lt
      have split : toLower (a::b::rest) = hex (x::bs) ↔
          lowerChar a = hexLetter (x.toNat/16) ∧ lowerChar b = hexLetter (x.toNat%16) ∧ toLower rest = hex bs := by
        simp only [toLower,hex,List.map_cons,List.flatMap_cons,List.cons_append,List.nil_append,List.cons.injEq]
      rw [split,digitLower a (by omega),digitLower b (by omega),ih bs]
      constructor
      · rintro ⟨first,second,more⟩
        simp only [unhex,first,second,more,bind,Option.bind_some,byteDigits]
      · intro read
        simp only [unhex,bind,Option.bind_eq_some_iff] at read
        obtain ⟨k,first,l,second,more,tail,same⟩ := read
        have hk := (digitSmall first).1
        have hl := (digitSmall second).1
        obtain ⟨byte,rfl⟩ := List.cons.inj (Option.some.inj same)
        have value : x.toNat = 16*k + l := by
          rw [← byte,UInt8.toNat_ofNat']
          omega
        have high : x.toNat/16 = k := by omega
        have low : x.toNat%16 = l := by omega
        rw [high,low]
        exact ⟨first,second,tail⟩

theorem hexLower [Letters] (bs : List UInt8) : toLower (hex bs) = hex bs := by
  have low : ∀ k < 16, (hexLetter k).toLower = hexLetter k := by decide
  have stays (k : Nat) (small : k < 16) : lowerChar (hexLetter k) = hexLetter k :=
    (lowerASCII (letterSmall k small)).trans (low k small)
  induction bs with
  | nil => rfl
  | cons b bs ih =>
    have hb := b.toNat_lt
    have split : toLower (hex (b::bs)) =
      lowerChar (hexLetter (b.toNat/16))::lowerChar (hexLetter (b.toNat%16))::toLower (hex bs) := rfl
    rw [split,stays _ (by omega),stays _ (by omega),ih]
    rfl

end Hex
section Base64

theorem sextetSome {c : Char} {m : Nat} (read : sextet c = some m) : m < 64 ∧ letter m = c := by
  obtain ⟨bound,here,_⟩ := List.findIdx?_eq_some_iff_getElem.mp read
  have inside : m < alphabet.length := bound
  have same : alphabet[m] = c := of_decide_eq_true here
  refine ⟨inside,?_⟩
  rw [letter,List.getD_eq_getElem?_getD,List.getElem?_eq_getElem inside,Option.getD_some,same]

theorem letterASCII : ∀ n < 64, (letter n).toNat < 128 := by decide +kernel

theorem letterCase : ∀ m < 64, ∀ n < 64, (letter m).toLower = (letter n).toLower → m = n ∨ m = n+26 ∨ n = m+26 := by
  decide +kernel

theorem byteBack {n : Nat} {x : UInt8} (small : n < 256) (same : UInt8.ofNat n = x) : x.toNat = n := by
  rw [← same,UInt8.toNat_ofNat']
  omega

section Case
variable [Letters]

theorem sextetCase {c : Char} {m n : Nat} (read : sextet c = some m) (small : n < 64)
    (same : lowerChar c = lowerChar (letter n)) : c = letter m ∧ m < 64 ∧ (m = n ∨ m = n+26 ∨ n = m+26) := by
  obtain ⟨bound,rfl⟩ := sextetSome read
  rw [lowerASCII (letterASCII m bound),lowerASCII (letterASCII n small)] at same
  exact ⟨rfl,bound,letterCase m bound n small same⟩

theorem lowerPlain {c d : Char} (plain : d = '=' ∨ d = '\r' ∨ d = '\n') (same : lowerChar c = d) : c = d := by
  have near : d.toNat < 128 ∧ d ≠ 'k' ∧ d ≠ 'i' := by
    obtain rfl | rfl | rfl := plain <;> decide
  obtain ascii | far | low | low := lowerCases c
  · obtain ⟨pad,carriage,line⟩ : (c.toLower = '=' → c = '=') ∧ (c.toLower = '\r' → c = '\r') ∧
        (c.toLower = '\n' → c = '\n') :=
      forASCII (p := fun c => (c.toLower = '=' → c = '=') ∧ (c.toLower = '\r' → c = '\r') ∧
        (c.toLower = '\n' → c = '\n')) (by decide) ascii
    rw [lowerASCII ascii] at same
    obtain rfl | rfl | rfl := plain
    · exact pad same
    · exact carriage same
    · exact line same
  · rw [same] at far
    omega
  · exact absurd (same.symm.trans low) near.2.1
  · exact absurd (same.symm.trans low) near.2.2

theorem notPad {c : Char} {n : Nat} (small : n < 64) (same : lowerChar c = lowerChar (letter n)) : c ≠ '=' := by
  rintro rfl
  have letters : ∀ n < 64, (letter n).toLower ≠ '=' := by decide +kernel
  rw [lowerASCII (letterASCII n small)] at same
  exact letters n small same.symm

theorem lowerCons {cs : Text} {d : Char} {ds : Text} (same : toLower cs = toLower (d::ds)) :
    ∃ c rest, cs = c::rest ∧ lowerChar c = lowerChar d ∧ toLower rest = toLower ds :=
  List.map_eq_cons_iff.mp same

theorem lowerPad {cs : Text} {ds : Text} (same : toLower cs = toLower ('='::ds)) :
    ∃ rest, cs = '='::rest ∧ toLower rest = toLower ds := by
  obtain ⟨c,rest,rfl,first,more⟩ := lowerCons same
  have pad : c = '=' := lowerPlain (.inl rfl) (first.trans rfl)
  exact ⟨rest,by rw [pad],more⟩

theorem quadsCase (bs : List UInt8) :
    ∀ cs, toLower cs = toLower (encode64 bs) → quads cs = some bs → cs = encode64 bs := by
  fun_induction encode64 bs with
  | case1 => exact fun cs same _ => List.map_eq_nil_iff.mp same
  | case2 x =>
    intro cs same read
    have hx := x.toNat_lt
    obtain ⟨c₁,_,rfl,one,after₁⟩ := lowerCons same
    obtain ⟨c₂,_,rfl,two,after₂⟩ := lowerCons after₁
    obtain ⟨_,rfl,after₃⟩ := lowerPad after₂
    obtain ⟨_,rfl,after₄⟩ := lowerPad after₃
    obtain rfl := List.map_eq_nil_iff.mp after₄
    rw [quads] at read
    simp only [bind,Option.bind_eq_some_iff] at read
    obtain ⟨a,readA,b,readB,bytes⟩ := read
    obtain ⟨rfl,smallA,nearA⟩ := sextetCase readA (by omega) one
    obtain ⟨rfl,smallB,nearB⟩ := sextetCase readB (by omega) two
    have value := byteBack (by omega) (List.cons.inj (Option.some.inj bytes)).1
    have high : a = x.toNat/4 := by omega
    have low : b = x.toNat%4*16 := by omega
    rw [high,low]
  | case3 x y =>
    intro cs same read
    have hx := x.toNat_lt
    have hy := y.toNat_lt
    obtain ⟨c₁,_,rfl,one,after₁⟩ := lowerCons same
    obtain ⟨c₂,_,rfl,two,after₂⟩ := lowerCons after₁
    obtain ⟨c₃,_,rfl,three,after₃⟩ := lowerCons after₂
    obtain ⟨_,rfl,after₄⟩ := lowerPad after₃
    obtain rfl := List.map_eq_nil_iff.mp after₄
    rw [quads] at read
    · simp only [bind,Option.bind_eq_some_iff] at read
      obtain ⟨a,readA,b,readB,c,readC,bytes⟩ := read
      obtain ⟨rfl,smallA,nearA⟩ := sextetCase readA (by omega) one
      obtain ⟨rfl,smallB,nearB⟩ := sextetCase readB (by omega) two
      obtain ⟨rfl,smallC,nearC⟩ := sextetCase readC (by omega) three
      obtain ⟨first,rest⟩ := List.cons.inj (Option.some.inj bytes)
      have valueX := byteBack (by omega) first
      have valueY := byteBack (by omega) (List.cons.inj rest).1
      have high : a = x.toNat/4 := by omega
      have middle : b = x.toNat%4*16 + y.toNat/16 := by omega
      have low : c = y.toNat%16*4 := by omega
      rw [high,middle,low]
    · exact notPad (by omega) three
  | case4 x y z rest ih =>
    intro cs same read
    have hx := x.toNat_lt
    have hy := y.toNat_lt
    have hz := z.toNat_lt
    obtain ⟨c₁,_,rfl,one,after₁⟩ := lowerCons same
    obtain ⟨c₂,_,rfl,two,after₂⟩ := lowerCons after₁
    obtain ⟨c₃,_,rfl,three,after₃⟩ := lowerCons after₂
    obtain ⟨c₄,_,rfl,four,after₄⟩ := lowerCons after₃
    have last : c₄ ≠ '=' := notPad (by omega) four
    rw [quads] at read
    · simp only [bind,Option.bind_eq_some_iff] at read
      obtain ⟨a,readA,b,readB,c,readC,d,readD,tail,readTail,bytes⟩ := read
      obtain ⟨rfl,smallA,nearA⟩ := sextetCase readA (by omega) one
      obtain ⟨rfl,smallB,nearB⟩ := sextetCase readB (by omega) two
      obtain ⟨rfl,smallC,nearC⟩ := sextetCase readC (by omega) three
      obtain ⟨rfl,smallD,nearD⟩ := sextetCase readD (by omega) four
      obtain ⟨first,more⟩ := List.cons.inj (Option.some.inj bytes)
      obtain ⟨second,more⟩ := List.cons.inj more
      obtain ⟨third,rfl⟩ := List.cons.inj more
      have valueX := byteBack (by omega) first
      have valueY := byteBack (by omega) second
      have valueZ := byteBack (by omega) third
      have high : a = x.toNat/4 := by omega
      have upper : b = x.toNat%4*16 + y.toNat/16 := by omega
      have lower : c = y.toNat%16*4 + z.toNat/64 := by omega
      have low : d = z.toNat%64 := by omega
      rw [high,upper,lower,low,ih _ after₄ readTail]
    · exact fun _ pad => absurd pad last
    · exact fun pad => absurd pad last

theorem sameText {cs : Text} {bs : List UInt8} (same : toLower cs = toLower (encode64 bs))
    (read : decode64 cs = some bs) : cs = encode64 bs := by
  have clean : ∀ c ∈ cs, c ≠ '\r' ∧ c ≠ '\n' := by
    intro c mem
    have lowered : lowerChar c ∈ toLower (encode64 bs) := same ▸ List.mem_map_of_mem mem
    obtain ⟨d,inText,alike⟩ := List.mem_map.mp lowered
    have plain := Text.encodeClean bs d inText
    constructor
    · rintro rfl
      exact plain.1 (lowerPlain (.inr (.inl rfl)) (alike.trans rfl))
    · rintro rfl
      exact plain.2 (lowerPlain (.inr (.inr rfl)) (alike.trans rfl))
  have whole : cs.filter (fun c => c ≠ '\r' ∧ c ≠ '\n') = cs :=
    List.filter_eq_self.mpr (fun c mem => by simpa using clean c mem)
  rw [decode64,whole] at read
  exact quadsCase bs cs same read

end Case
end Base64
end DevkitCommon.Encodings
