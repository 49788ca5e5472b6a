import DevkitCommon.Migrate.Columns
import Mathlib.Tactic.Linarith

/-! What a column of a type holds: numbers between two bounds, texts and bytes of some length.
A value is representable in a column of another type that holds the same value: the number
itself, the text of a number, the characters or the bytes of a string. -/
namespace DevkitCommon.Migrate
open Words

def utf8 (t : Text) : List UInt8 := t.flatMap String.utf8EncodeChar

def fixed (n : Int) (s : Nat) : Text :=
  (if n < 0 then ['-'] else []) ++ (numeral (n.natAbs/10^s) ++
    if s = 0 then [] else '.'::(numeral (n.natAbs%10^s)).leftpad s '0')

inductive Value where
  | number (n : Int) (s : Nat)
  | text (t : Text)
  | bytes (b : List UInt8)
  deriving DecidableEq, Repr

def Same : Value → Value → Prop
  | .number n s,.number m u => n*10^u = m*10^s
  | .number n s,.text t => fixed n s = t
  | .number n s,.bytes b => utf8 (fixed n s) = b
  | .text t,.number m u => t = fixed m u
  | .text t,.text u => t = u
  | .text t,.bytes b => utf8 t = b
  | .bytes b,.number m u => b = utf8 (fixed m u)
  | .bytes b,.text u => b = utf8 u
  | .bytes b,.bytes c => b = c

section Numbers

structure Span where
  scale : Nat
  low : Int
  high : Int
  zero : low ≤ 0
  one : 1 ≤ high
  signed : low < 0 → high ≤ -low

def Span.Holds (a : Span) (n : Int) (s : Nat) : Prop := s = a.scale ∧ a.low ≤ n ∧ n ≤ a.high

def Span.Within (a b : Span) : Prop :=
  a.scale ≤ b.scale ∧ b.low ≤ a.low*10^(b.scale-a.scale) ∧ a.high*10^(b.scale-a.scale) ≤ b.high

def Span.narrowest (a : Span) : Nat := (fixed 0 a.scale).length
def Span.widest (a : Span) : Nat := (fixed (if a.low < 0 then a.low else a.high) a.scale).length

def IntKind.bits : IntKind → Nat
  | .tinyint | .flag => 8
  | .smallint => 16
  | .mediumint => 24
  | .int | .integer => 32
  | .bigint => 64

def IntKind.digits : IntKind → Bool → Nat
  | .tinyint,_ | .flag,_ => 3
  | .smallint,_ => 5
  | .mediumint,isUnsigned => if isUnsigned then 8 else 7
  | .int,_ | .integer,_ => 10
  | .bigint,isUnsigned => if isUnsigned then 20 else 19

theorem IntKind.bounds (k : IntKind) (isUnsigned : Bool) :
    (if isUnsigned then 0 else -2^(k.bits-1) : Int) ≤ 0 ∧ 1 ≤ (if isUnsigned then 2^k.bits-1 else 2^(k.bits-1)-1 : Int) ∧
    ((if isUnsigned then 0 else -2^(k.bits-1) : Int) < 0 →
      (if isUnsigned then 2^k.bits-1 else 2^(k.bits-1)-1 : Int) ≤ -(if isUnsigned then 0 else -2^(k.bits-1))) := by
  cases k <;> cases isUnsigned <;> decide

def IntKind.span (k : IntKind) (isUnsigned : Bool) : Span where
  scale := 0
  low := if isUnsigned then 0 else -2^(k.bits-1)
  high := if isUnsigned then 2^k.bits-1 else 2^(k.bits-1)-1
  zero := (k.bounds isUnsigned).1
  one := (k.bounds isUnsigned).2.1
  signed := (k.bounds isUnsigned).2.2

theorem Digits.large (d : Digits) : (10 : Int) ≤ 10^d.precision := by
  have := Nat.pow_le_pow_right (show 10 > 0 by decide) d.positive
  exact_mod_cast this

def Digits.span (d : Digits) (isUnsigned : Bool) : Span where
  scale := d.scale
  low := if isUnsigned then 0 else 1-10^d.precision
  high := 10^d.precision-1
  zero := by
    have := d.large
    split <;> omega
  one := by
    have := d.large
    omega
  signed := by
    have := d.large
    split <;> omega

theorem spanScale {a b : Nat} {n m : Int} (same : n*10^b = m*10^a) (wide : a ≤ b) : m = n*10^(b-a) := by
  have split : (10 : Int)^b = 10^(b-a)*10^a := by rw [← pow_add,Nat.sub_add_cancel wide]
  rw [split,← mul_assoc] at same
  exact (mul_right_cancel₀ (pow_ne_zero _ (by decide)) same).symm

theorem spanWithin {a b : Span} : (∀ n s, a.Holds n s → ∃ m u, b.Holds m u ∧ Same (.number n s) (.number m u)) ↔ a.Within b := by
  constructor
  · intro all
    obtain ⟨m,u,⟨rfl,-,-⟩,same⟩ := all 1 a.scale ⟨rfl,a.zero.trans (by decide),a.one⟩
    have wide : a.scale ≤ b.scale := by
      have divides : (10 : Int)^a.scale ∣ 10^b.scale := ⟨m,by rw [mul_comm]; simpa [Same] using same⟩
      exact (Nat.pow_dvd_pow_iff_le_right (show 1 < 10 by decide)).mp (by exact_mod_cast divides)
    have bound (n : Int) (low : a.low ≤ n) (high : n ≤ a.high) :
        b.low ≤ n*10^(b.scale-a.scale) ∧ n*10^(b.scale-a.scale) ≤ b.high := by
      obtain ⟨m,u,⟨rfl,above,below⟩,same⟩ := all n a.scale ⟨rfl,low,high⟩
      rw [← spanScale same wide]
      exact ⟨above,below⟩
    have ordered : a.low ≤ a.high := a.zero.trans (Int.le_trans (by decide) a.one)
    exact ⟨wide,(bound a.low (le_refl _) ordered).1,(bound a.high ordered (le_refl _)).2⟩
  · rintro ⟨wide,low,high⟩ n s ⟨rfl,above,below⟩
    have scaled : (0 : Int) ≤ 10^(b.scale-a.scale) := pow_nonneg (by decide) _
    refine ⟨n*10^(b.scale-a.scale),b.scale,⟨rfl,low.trans (mul_le_mul_of_nonneg_right above scaled),
      (mul_le_mul_of_nonneg_right below scaled).trans high⟩,?_⟩
    rw [Same,mul_assoc,← pow_add,Nat.sub_add_cancel wide]

end Numbers

section Strings

/- What a column of strings holds. The blanks at the end of a char are removed. chars and the
encoded bytes of a text are those of utf8mb4. -/
inductive Room where
  | padded (n : Nat)
  | chars (n : Nat)
  | encoded (n : Nat)
  | exactly (n : Nat)
  | bytes (n : Nat)
  deriving DecidableEq, Repr

def Room.Holds : Room → Value → Prop
  | .padded n,.text t => t.length ≤ n ∧ t.getLast? ≠ some ' '
  | .chars n,.text t => t.length ≤ n
  | .encoded n,.text t => (utf8 t).length ≤ n
  | .exactly n,.bytes b => b.length = n
  | .bytes n,.bytes b => b.length ≤ n
  | _,_ => False

def Room.most : Room → Nat
  | .padded n | .chars n => 4*n
  | .encoded n | .exactly n | .bytes n => n

def Room.Within : Room → Room → Prop
  | .padded n,.padded m | .padded n,.chars m | .chars n,.chars m | .encoded n,.chars m => n ≤ m
  | .exactly n,.exactly m => n = m
  | .padded n,.encoded m | .chars n,.encoded m => 4*n ≤ m
  | .encoded n,.encoded m => n ≤ m
  | a,.bytes m => a.most ≤ m
  | a,.exactly m => a.most = 0 ∧ m = 0
  | a,_ => a.most = 0
instance : DecidableRel Room.Within := by intro a b; cases a <;> cases b <;> unfold Room.Within <;> infer_instance

theorem utf8Cons (c : Char) (t : Text) : utf8 (c::t) = String.utf8EncodeChar c ++ utf8 t := rfl

theorem utf8Most (t : Text) : (utf8 t).length ≤ 4*t.length := by
  induction t with
  | nil => exact Nat.le_refl 0
  | cons c t ih =>
    have small := c.utf8Size_le_four
    rw [utf8Cons,List.length_append,String.length_utf8EncodeChar,List.length_cons]
    omega

theorem utf8Least (t : Text) : t.length ≤ (utf8 t).length := by
  induction t with
  | nil => exact Nat.le_refl 0
  | cons c t ih =>
    have some' := c.utf8Size_pos
    rw [utf8Cons,List.length_append,String.length_utf8EncodeChar,List.length_cons]
    omega

theorem utf8Repeat (c : Char) (n : Nat) : (utf8 (List.replicate n c)).length = n*c.utf8Size := by
  induction n with
  | zero => rw [Nat.zero_mul]; rfl
  | succ n ih => rw [List.replicate_succ,utf8Cons,List.length_append,String.length_utf8EncodeChar,ih,Nat.succ_mul,Nat.add_comm]

theorem byteOther {n : Nat} (small : n < 255) : (0xFF : UInt8) ≠ UInt8.ofNat n := by
  intro same
  have := congrArg UInt8.toNat same
  rw [UInt8.toNat_ofNat_of_lt' (Nat.lt_succ_of_lt small)] at this
  exact absurd this.symm (show n ≠ 255 by omega)

theorem utf8Never (t : Text) : (0xFF : UInt8) ∉ utf8 t := by
  intro mem
  obtain ⟨c,-,inside⟩ := List.mem_flatMap.mp mem
  unfold String.utf8EncodeChar at inside
  dsimp only at inside
  split at inside
  · exact byteOther (by omega) (List.mem_singleton.mp inside)
  split at inside
  · simp only [List.mem_cons,List.not_mem_nil,or_false] at inside
    exact inside.elim (byteOther (by omega)) (byteOther (by omega))
  split at inside
  · simp only [List.mem_cons,List.not_mem_nil,or_false] at inside
    exact inside.elim (byteOther (by omega)) (fun rest => rest.elim (byteOther (by omega)) (byteOther (by omega)))
  · simp only [List.mem_cons,List.not_mem_nil,or_false] at inside
    exact inside.elim (byteOther (by omega)) (fun rest => rest.elim (byteOther (by omega)) (fun rest =>
      rest.elim (byteOther (by omega)) (byteOther (by omega))))

theorem utf8Empty {t : Text} (none' : (utf8 t).length = 0) : t = [] :=
  List.length_eq_zero_iff.mp (Nat.le_zero.mp (none' ▸ utf8Least t))

def Value.encoding : Value → List UInt8
  | .number n s => utf8 (fixed n s)
  | .text t => utf8 t
  | .bytes b => b

theorem sameBytes {v : Value} {b : List UInt8} : Same v (.bytes b) ↔ v.encoding = b := by
  cases v <;> rfl

theorem roomMost {a : Room} {v : Value} (held : a.Holds v) : v.encoding.length ≤ a.most := by
  cases a <;> cases v <;> try contradiction
  · exact (utf8Most _).trans (Nat.mul_le_mul_left 4 held.1)
  · exact (utf8Most _).trans (Nat.mul_le_mul_left 4 held)
  · exact held
  · exact Nat.le_of_eq held
  · exact held

def wide : Char := Char.ofNat 0x1F600

theorem lastRepeat {c : Char} {n : Nat} (other : c ≠ ' ') : (List.replicate n c).getLast? ≠ some ' ' := by
  intro last
  exact other (List.eq_of_mem_replicate (List.mem_of_getLast? last)).symm

theorem roomFull (a : Room) : ∃ v, a.Holds v ∧ v.encoding.length = a.most := by
  cases a with
  | padded n =>
    exact ⟨.text (List.replicate n wide),⟨Nat.le_of_eq List.length_replicate,lastRepeat (by decide)⟩,
      (utf8Repeat wide n).trans (Nat.mul_comm n 4)⟩
  | chars n =>
    exact ⟨.text (List.replicate n wide),Nat.le_of_eq List.length_replicate,(utf8Repeat wide n).trans (Nat.mul_comm n 4)⟩
  | encoded n =>
    have size : (utf8 (List.replicate n 'x')).length = n := (utf8Repeat 'x' n).trans (Nat.mul_one n)
    exact ⟨.text (List.replicate n 'x'),Nat.le_of_eq size,size⟩
  | exactly n => exact ⟨.bytes (List.replicate n 0),List.length_replicate,List.length_replicate⟩
  | bytes n => exact ⟨.bytes (List.replicate n 0),Nat.le_of_eq List.length_replicate,List.length_replicate⟩

theorem roomEmpty {a : Room} (loose : ∀ n, a ≠ .exactly n) : ∃ v, a.Holds v ∧ v.encoding = [] := by
  cases a with
  | padded n => exact ⟨.text [],⟨Nat.zero_le n,by decide⟩,rfl⟩
  | chars n => exact ⟨.text [],Nat.zero_le n,rfl⟩
  | encoded n => exact ⟨.text [],Nat.zero_le n,rfl⟩
  | exactly n => exact absurd rfl (loose n)
  | bytes n => exact ⟨.bytes [],Nat.zero_le n,rfl⟩

def Room.Into (a b : Room) : Prop := ∀ v, a.Holds v → ∃ w, b.Holds w ∧ Same v w

theorem intoBytes {a : Room} {m : Nat} : a.Into (.bytes m) ↔ a.most ≤ m := by
  constructor
  · intro all
    obtain ⟨v,held,full⟩ := roomFull a
    obtain ⟨w,fits,same⟩ := all v held
    cases w <;> try contradiction
    rw [← full,sameBytes.mp same]
    exact fits
  · exact fun most v held => ⟨.bytes v.encoding,(roomMost held).trans most,sameBytes.mpr rfl⟩

theorem intoExactly {a : Room} {m : Nat} : a.Into (.exactly m) ↔ ∀ v, a.Holds v → v.encoding.length = m := by
  constructor
  · intro all v held
    obtain ⟨w,fits,same⟩ := all v held
    cases w <;> try contradiction
    rw [sameBytes.mp same]
    exact fits
  · exact fun all v held => ⟨.bytes v.encoding,all v held,sameBytes.mpr rfl⟩

theorem exactlyLoose {a : Room} {m : Nat} (loose : ∀ n, a ≠ .exactly n) : a.Into (.exactly m) ↔ a.most = 0 ∧ m = 0 := by
  rw [intoExactly]
  constructor
  · intro all
    obtain ⟨v,held,full⟩ := roomFull a
    obtain ⟨w,held',empty⟩ := roomEmpty loose
    have none' := all w held'
    rw [empty,List.length_nil] at none'
    exact ⟨full.symm.trans ((all v held).trans none'.symm),none'.symm⟩
  · rintro ⟨most,rfl⟩ v held
    exact Nat.le_zero.mp (most ▸ roomMost held)

def Room.Texts : Room → Prop
  | .padded _ | .chars _ | .encoded _ => True
  | .exactly _ | .bytes _ => False

theorem intoTexts {a b : Room} (left : a.Texts) : a.Into b ↔ ∀ t, a.Holds (.text t) → ∃ w, b.Holds w ∧ Same (.text t) w := by
  constructor
  · exact fun all t held => all (.text t) held
  · intro all v held
    cases v with
    | text t => exact all t held
    | number n s => cases a <;> contradiction
    | bytes c => cases a <;> contradiction

theorem textsInto {a b : Room} (left : a.Texts) (right : b.Texts) : a.Into b ↔ ∀ t, a.Holds (.text t) → b.Holds (.text t) := by
  rw [intoTexts left]
  refine forall₂_congr (fun t _ => ⟨?_,fun holds => ⟨.text t,holds,rfl⟩⟩)
  rintro ⟨w,holds,same⟩
  cases w with
  | text u => exact (show t = u from same) ▸ holds
  | number n s => cases b <;> contradiction
  | bytes c => cases b <;> contradiction

theorem bytesTexts {a b : Room} (left : ¬ a.Texts) (right : b.Texts) : a.Into b ↔ a.most = 0 := by
  constructor
  · intro all
    by_contra some'
    have held : ∃ c, a.Holds (.bytes c) ∧ (0xFF : UInt8) ∈ c := by
      cases a <;> try exact absurd trivial left
      · rename_i n
        exact ⟨List.replicate n 0xFF,List.length_replicate,List.mem_replicate.mpr ⟨some',rfl⟩⟩
      · rename_i n
        exact ⟨List.replicate n 0xFF,Nat.le_of_eq List.length_replicate,List.mem_replicate.mpr ⟨some',rfl⟩⟩
    obtain ⟨c,holds,mem⟩ := held
    obtain ⟨w,fits,same⟩ := all (.bytes c) holds
    cases w with
    | text u => exact utf8Never u ((show c = utf8 u from same) ▸ mem)
    | number n s => cases b <;> contradiction
    | bytes d => cases b <;> contradiction
  · intro none' v held
    have empty := List.length_eq_zero_iff.mp (Nat.le_zero.mp (none' ▸ roomMost held))
    have nothing : b.Holds (.text []) := by
      cases b <;> try contradiction
      · exact ⟨Nat.zero_le _,by decide⟩
      · exact Nat.zero_le _
      · exact Nat.zero_le _
    refine ⟨.text [],nothing,?_⟩
    cases v with
    | bytes c => exact empty
    | text u => cases a <;> first | contradiction | exact absurd trivial left
    | number n s => cases a <;> contradiction

theorem roomWithin {a b : Room} : a.Into b ↔ a.Within b := by
  have letters (n : Nat) : (utf8 (List.replicate n 'x')).length = n := (utf8Repeat 'x' n).trans (Nat.mul_one n)
  have wides (n : Nat) : (utf8 (List.replicate n wide)).length = 4*n := (utf8Repeat wide n).trans (Nat.mul_comm n 4)
  have size {c : Char} (n : Nat) : (List.replicate n c).length ≤ n := Nat.le_of_eq List.length_replicate
  cases b with
  | bytes m =>
    rw [intoBytes]
    cases a <;> exact Iff.rfl
  | exactly m =>
    cases a with
    | exactly n =>
      rw [intoExactly]
      exact ⟨fun all => List.length_replicate.symm.trans (all (.bytes (List.replicate n 0)) List.length_replicate),
        fun same v held => by cases v <;> first | contradiction | exact held.trans same⟩
    | padded n => exact exactlyLoose (fun _ same => Room.noConfusion same)
    | chars n => exact exactlyLoose (fun _ same => Room.noConfusion same)
    | encoded n => exact exactlyLoose (fun _ same => Room.noConfusion same)
    | bytes n => exact exactlyLoose (fun _ same => Room.noConfusion same)
  | padded m =>
    cases a with
    | padded n =>
      refine (textsInto (a := .padded n) (b := .padded m) trivial trivial).trans ?_
      exact ⟨fun all => List.length_replicate.symm.trans_le (all (List.replicate n 'x') ⟨size n,lastRepeat (by decide)⟩).1,
        fun small t held => ⟨held.1.trans small,held.2⟩⟩
    | chars n =>
      refine (textsInto (a := .chars n) (b := .padded m) trivial trivial).trans ?_
      constructor
      · intro all
        by_contra some'
        have one : 1 ≤ n := Nat.pos_of_ne_zero (fun none' => some' (Nat.mul_eq_zero.mpr (.inr none')))
        exact (all [' '] one).2 rfl
      · intro none' t held
        have empty : t = [] := utf8Empty (Nat.le_zero.mp (none' ▸ roomMost (v := .text t) held))
        rw [empty]
        exact ⟨Nat.zero_le m,by decide⟩
    | encoded n =>
      refine (textsInto (a := .encoded n) (b := .padded m) trivial trivial).trans ?_
      constructor
      · intro all
        by_contra some'
        exact (all [' '] (Nat.pos_of_ne_zero some')).2 rfl
      · intro none' t held
        have empty : t = [] := utf8Empty (Nat.le_zero.mp (none' ▸ roomMost (v := .text t) held))
        rw [empty]
        exact ⟨Nat.zero_le m,by decide⟩
    | exactly n => exact bytesTexts (a := .exactly n) (b := .padded m) id trivial
    | bytes n => exact bytesTexts (a := .bytes n) (b := .padded m) id trivial
  | chars m =>
    cases a with
    | padded n =>
      refine (textsInto (a := .padded n) (b := .chars m) trivial trivial).trans ?_
      exact ⟨fun all => List.length_replicate.symm.trans_le (all (List.replicate n 'x') ⟨size n,lastRepeat (by decide)⟩),
        fun small t held => held.1.trans small⟩
    | chars n =>
      refine (textsInto (a := .chars n) (b := .chars m) trivial trivial).trans ?_
      exact ⟨fun all => List.length_replicate.symm.trans_le (all (List.replicate n 'x') (size n)),
        fun small t held => held.trans small⟩
    | encoded n =>
      refine (textsInto (a := .encoded n) (b := .chars m) trivial trivial).trans ?_
      exact ⟨fun all => List.length_replicate.symm.trans_le (all (List.replicate n 'x') (Nat.le_of_eq (letters n))),
        fun small t held => (utf8Least t).trans (held.trans small)⟩
    | exactly n => exact bytesTexts (a := .exactly n) (b := .chars m) id trivial
    | bytes n => exact bytesTexts (a := .bytes n) (b := .chars m) id trivial
  | encoded m =>
    cases a with
    | padded n =>
      refine (textsInto (a := .padded n) (b := .encoded m) trivial trivial).trans ?_
      exact ⟨fun all => (wides n).symm.trans_le (all (List.replicate n wide) ⟨size n,lastRepeat (by decide)⟩),
        fun small t held => (roomMost (a := .padded n) (v := .text t) held).trans small⟩
    | chars n =>
      refine (textsInto (a := .chars n) (b := .encoded m) trivial trivial).trans ?_
      exact ⟨fun all => (wides n).symm.trans_le (all (List.replicate n wide) (size n)),
        fun small t held => (roomMost (a := .chars n) (v := .text t) held).trans small⟩
    | encoded n =>
      refine (textsInto (a := .encoded n) (b := .encoded m) trivial trivial).trans ?_
      exact ⟨fun all => (letters n).symm.trans_le (all (List.replicate n 'x') (Nat.le_of_eq (letters n))),
        fun small t held => held.trans small⟩
    | exactly n => exact bytesTexts (a := .exactly n) (b := .encoded m) id trivial
    | bytes n => exact bytesTexts (a := .bytes n) (b := .encoded m) id trivial

end Strings

section Numerals

theorem fixedLength (n : Int) (s : Nat) : (fixed n s).length =
    (if n < 0 then 1 else 0) + ((numeral (n.natAbs/10^s)).length + if s = 0 then 0 else s+1) := by
  have point : (if s = 0 then [] else '.'::(numeral (n.natAbs%10^s)).leftpad s '0').length = if s = 0 then 0 else s+1 := by
    split
    · rfl
    · rename_i some'
      have small : (numeral (n.natAbs%10^s)).length ≤ s :=
        (Nat.length_toDigits_le_iff (by decide) (Nat.pos_of_ne_zero some')).mpr (Nat.mod_lt _ (Nat.pow_pos (by decide)))
      rw [List.length_cons,List.length_leftpad,Nat.max_eq_left small]
  rw [fixed,List.length_append,List.length_append,point]
  split <;> rfl

theorem fixedChars {n : Int} {s : Nat} {c : Char} (mem : c ∈ fixed n s) : c.utf8Size = 1 ∧ c ≠ ' ' := by
  have digit {c : Char} (is : c.isDigit = true) : c.utf8Size = 1 ∧ c ≠ ' ' :=
    forASCII (p := fun c => c.isDigit = true → c.utf8Size = 1 ∧ c ≠ ' ') (by decide) (by
      simp only [Char.isDigit,Bool.and_eq_true,decide_eq_true_eq,UInt32.le_iff_toNat_le] at is
      exact Nat.lt_of_le_of_lt is.2 (by decide)) is
  rcases List.mem_append.mp mem with sign | rest
  · split at sign
    · rw [List.mem_singleton.mp sign]
      decide
    · exact absurd sign List.not_mem_nil
  rcases List.mem_append.mp rest with front | back
  · exact digit (numeralDigits front)
  · split at back
    · exact absurd back List.not_mem_nil
    rcases List.mem_cons.mp back with rfl | last
    · decide
    rcases List.mem_append.mp last with pad | last
    · rw [List.eq_of_mem_replicate pad]
      decide
    · exact digit (numeralDigits last)

theorem utf8Plain {t : Text} (plain : ∀ c ∈ t, c.utf8Size = 1) : (utf8 t).length = t.length := by
  induction t with
  | nil => rfl
  | cons c t ih =>
    rw [utf8Cons,List.length_append,String.length_utf8EncodeChar,plain c List.mem_cons_self,
      ih (fun d mem => plain d (List.mem_cons_of_mem c mem)),List.length_cons,Nat.add_comm]

theorem fixedBytes (n : Int) (s : Nat) : (utf8 (fixed n s)).length = (fixed n s).length :=
  utf8Plain (fun _ mem => (fixedChars mem).1)

theorem fixedSome (n : Int) (s : Nat) : fixed n s ≠ [] := by
  intro none'
  have size := fixedLength n s
  have some' : 0 < (numeral (n.natAbs/10^s)).length := Nat.length_toDigits_pos
  rw [none',List.length_nil] at size
  omega

theorem numeralMono {n m : Nat} (le : n ≤ m) : (numeral n).length ≤ (numeral m).length :=
  (Nat.length_toDigits_le_iff (by decide) Nat.length_toDigits_pos).mpr
    (Nat.lt_of_le_of_lt le ((Nat.length_toDigits_le_iff (by decide) Nat.length_toDigits_pos).mp (Nat.le_refl _)))

theorem spanNarrowest {a : Span} {n : Int} : a.narrowest ≤ (fixed n a.scale).length := by
  have some' : 0 < (numeral (n.natAbs/10^a.scale)).length := Nat.length_toDigits_pos
  have zero : (numeral (Int.natAbs 0/10^a.scale)).length = 1 := by
    rw [Int.natAbs_zero,Nat.zero_div]
    rfl
  rw [Span.narrowest,fixedLength,fixedLength,zero,if_neg (show ¬ (0 : Int) < 0 by decide)]
  omega

theorem spanWidest {a : Span} {n : Int} {s : Nat} (holds : a.Holds n s) : (fixed n s).length ≤ a.widest := by
  obtain ⟨rfl,low,high⟩ := holds
  have mono {m : Int} (le : n.natAbs ≤ m.natAbs) :
      (numeral (n.natAbs/10^a.scale)).length ≤ (numeral (m.natAbs/10^a.scale)).length := numeralMono (Nat.div_le_div_right le)
  have signed := a.signed
  rw [Span.widest]
  by_cases negative : a.low < 0
  · have := mono (m := a.low) (by omega)
    rw [if_pos negative,fixedLength,fixedLength,if_pos negative]
    split <;> omega
  · have := mono (m := a.high) (by omega)
    rw [if_neg negative,fixedLength,fixedLength,if_neg (show ¬ n < 0 by omega)]
    omega

theorem spanAttains (a : Span) : ∃ n, a.Holds n a.scale ∧ (fixed n a.scale).length = a.widest := by
  have zero := a.zero
  have one := a.one
  unfold Span.widest
  split
  · exact ⟨a.low,⟨rfl,by omega,by omega⟩,rfl⟩
  · exact ⟨a.high,⟨rfl,by omega,by omega⟩,rfl⟩

def Span.Fits (a : Span) : Room → Prop
  | .exactly m => a.narrowest = m ∧ a.widest = m
  | .padded m | .chars m | .encoded m | .bytes m => a.widest ≤ m

instance (a b) : Decidable (Span.Fits a b) := by cases b <;> unfold Span.Fits <;> infer_instance

theorem spanRoom {a : Span} {b : Room} :
    (∀ n s, a.Holds n s → ∃ w, b.Holds w ∧ Same (.number n s) w) ↔ a.Fits b := by
  obtain ⟨top,held,full⟩ := spanAttains a
  have last {n : Int} {s : Nat} : (fixed n s).getLast? ≠ some ' ' := fun blank =>
    (fixedChars (List.mem_of_getLast? blank)).2 rfl
  cases b with
  | padded m =>
    constructor
    · intro all
      obtain ⟨w,fits,same⟩ := all top a.scale held
      cases w <;> try contradiction
      rw [Span.Fits,← full,show fixed top a.scale = _ from same]
      exact fits.1
    · exact fun small n s holds => ⟨.text (fixed n s),⟨(spanWidest holds).trans small,last⟩,rfl⟩
  | chars m =>
    constructor
    · intro all
      obtain ⟨w,fits,same⟩ := all top a.scale held
      cases w <;> try contradiction
      rw [Span.Fits,← full,show fixed top a.scale = _ from same]
      exact fits
    · exact fun small n s holds => ⟨.text (fixed n s),(spanWidest holds).trans small,rfl⟩
  | encoded m =>
    constructor
    · intro all
      obtain ⟨w,fits,same⟩ := all top a.scale held
      cases w <;> try contradiction
      rw [Span.Fits,← full,← fixedBytes,show fixed top a.scale = _ from same]
      exact fits
    · exact fun small n s holds =>
        ⟨.text (fixed n s),((fixedBytes n s).trans_le (spanWidest holds)).trans small,rfl⟩
  | exactly m =>
    constructor
    · intro all
      have size {n : Int} (low : a.low ≤ n) (high : n ≤ a.high) : (fixed n a.scale).length = m := by
        obtain ⟨w,fits,same⟩ := all n a.scale ⟨rfl,low,high⟩
        cases w <;> try contradiction
        rw [← fixedBytes,show utf8 (fixed n a.scale) = _ from same]
        exact fits
      exact ⟨size a.zero ((show (0 : Int) ≤ 1 by decide).trans a.one),full.symm.trans (size held.2.1 held.2.2)⟩
    · rintro ⟨short,long⟩ n s holds
      refine ⟨.bytes (utf8 (fixed n s)),?_,rfl⟩
      have low := spanNarrowest (a := a) (n := n)
      have high := spanWidest holds
      rw [← holds.1] at low
      exact (fixedBytes n s).trans (by omega)
  | bytes m =>
    constructor
    · intro all
      obtain ⟨w,fits,same⟩ := all top a.scale held
      cases w <;> try contradiction
      rw [Span.Fits,← full,← fixedBytes,show utf8 (fixed top a.scale) = _ from same]
      exact fits
    · exact fun small n s holds =>
        ⟨.bytes (utf8 (fixed n s)),((fixedBytes n s).trans_le (spanWidest holds)).trans small,rfl⟩

theorem roomNoNumber (a : Room) : ∃ v, a.Holds v ∧ ∀ n s, ¬ Same v (.number n s) := by
  cases a with
  | padded m => exact ⟨.text [],⟨Nat.zero_le m,by decide⟩,fun n s same => fixedSome n s (show [] = fixed n s from same).symm⟩
  | chars m => exact ⟨.text [],Nat.zero_le m,fun n s same => fixedSome n s (show [] = fixed n s from same).symm⟩
  | encoded m => exact ⟨.text [],Nat.zero_le m,fun n s same => fixedSome n s (show [] = fixed n s from same).symm⟩
  | bytes m =>
    refine ⟨.bytes [],Nat.zero_le m,fun n s same => fixedSome n s (utf8Empty ?_)⟩
    rw [← show [] = utf8 (fixed n s) from same]
    rfl
  | exactly m =>
    refine ⟨.bytes (List.replicate m 0xFF),List.length_replicate,fun n s same => ?_⟩
    have text : List.replicate m 0xFF = utf8 (fixed n s) := same
    cases m with
    | zero => exact fixedSome n s (utf8Empty (text ▸ rfl))
    | succ m => exact utf8Never (fixed n s) (text ▸ List.mem_cons_self)

end Numerals

inductive Content where
  | numbers (a : Span)
  | strings (a : Room)

def Content.Holds : Content → Value → Prop
  | .numbers a,.number n s => a.Holds n s
  | .numbers _,_ => False
  | .strings a,v => a.Holds v

def Content.Within : Content → Content → Prop
  | .numbers a,.numbers b => a.Within b
  | .numbers a,.strings b => a.Fits b
  | .strings _,.numbers _ => False
  | .strings a,.strings b => a.Within b

def Representable (b : Content) (v : Value) : Prop := ∃ w, b.Holds w ∧ Same v w

theorem contentWithin {a b : Content} : (∀ v, a.Holds v → Representable b v) ↔ a.Within b := by
  cases a with
  | numbers a =>
    have only (P : Value → Prop) : (∀ v, (Content.numbers a).Holds v → P v) ↔ ∀ n s, a.Holds n s → P (.number n s) :=
      ⟨fun all n s holds => all (.number n s) holds,fun all v holds => by cases v <;> first | contradiction | exact all _ _ holds⟩
    rw [only]
    cases b with
    | numbers b =>
      refine Iff.trans (forall₃_congr (fun n s _ => ⟨?_,fun ⟨m,u,holds,same⟩ => ⟨.number m u,holds,same⟩⟩)) spanWithin
      rintro ⟨w,holds,same⟩
      cases w <;> first | contradiction | exact ⟨_,_,holds,same⟩
    | strings b => exact spanRoom
  | strings a =>
    cases b with
    | numbers b =>
      constructor
      · intro all
        obtain ⟨v,holds,never⟩ := roomNoNumber a
        obtain ⟨w,inside,same⟩ := all v holds
        cases w <;> first | contradiction | exact never _ _ same
      · exact False.elim
    | strings b => exact roomWithin

end DevkitCommon.Migrate
