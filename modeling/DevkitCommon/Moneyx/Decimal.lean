import DevkitCommon.Lib.Rounding
import DevkitCommon.Lib.Text
import DevkitCommon.Lib.Words
import Mathlib.Algebra.Order.Field.Power

/-! The arbitrary-precision decimals that amounts are made of: a coefficient times a power of
ten. The package that implements them is not part of the repository; what it documents of each
operation stands here as the laws that every such package keeps. -/
namespace DevkitCommon.Moneyx
open Rounding Words

def divisionPrecision : ℕ := 16

def plain (c : Char) : Bool := c.isDigit || c == '.' || c == '-'

def places (s : Int32) : ℕ := s.toInt.toNat

/- Truncate and the roundings are asked for no fewer than zero decimals here. A text that is read
has a coefficient and an exponent; IntPart is the integer part where an int64 holds it. -/
structure Decimals where
  Dec : Type
  value : Dec → ℚ
  exponent : Dec → Int32
  zero : Dec
  new : Int64 → Int32 → Dec
  newFromInt : Int64 → Dec
  newFromString : Text → Option Dec
  stringFixed : Dec → Int32 → Text
  neg : Dec → Dec
  abs : Dec → Dec
  add : Dec → Dec → Dec
  sub : Dec → Dec → Dec
  mul : Dec → Dec → Dec
  div : Dec → Dec → Dec
  truncate : Dec → Int32 → Dec
  round : Dec → Int32 → Dec
  roundDown : Dec → Int32 → Dec
  roundUp : Dec → Int32 → Dec
  roundBank : Dec → Int32 → Dec
  isNegative : Dec → Bool
  equal : Dec → Dec → Bool
  intPart : Dec → Int64
  valueZero : value zero = 0
  valueNew v e : value (new v e) = v.toInt*(10 : ℚ)^e.toInt
  valueInt v : value (newFromInt v) = v.toInt
  valueNeg d : value (neg d) = -value d
  valueAbs d : value (abs d) = |value d|
  valueAdd d e : value (add d e) = value d + value e
  valueSub d e : value (sub d e) = value d - value e
  valueMul d e : value (mul d e) = value d * value e
  valueDiv d e : value e ≠ 0 → value (div d e) = atPlaces halfUp divisionPrecision (value d/value e)
  valueTruncate d p : 0 ≤ p.toInt → value (truncate d p) = atPlaces down (places p) (value d)
  valueRound d p : 0 ≤ p.toInt → value (round d p) = atPlaces halfUp (places p) (value d)
  valueRoundDown d p : 0 ≤ p.toInt → value (roundDown d p) = atPlaces down (places p) (value d)
  valueRoundUp d p : 0 ≤ p.toInt → value (roundUp d p) = atPlaces up (places p) (value d)
  valueRoundBank d p : 0 ≤ p.toInt → value (roundBank d p) = atPlaces halfEven (places p) (value d)
  negativeIff d : isNegative d = true ↔ value d < 0
  equalIff d e : equal d e = true ↔ value d = value e
  intPartValue d : down (value d) = (Int64.ofInt (down (value d))).toInt → intPart d = Int64.ofInt (down (value d))
  readExponent t d : newFromString t = some d → ∃ v : ℤ, value d = v*(10 : ℚ)^(exponent d).toInt
  fixedPlain d p : 0 ≤ p.toInt → ∀ c ∈ stringFixed d p, plain c = true
  fixedReads d p : 0 ≤ p.toInt →
    ∃ e, newFromString (stringFixed d p) = some e ∧ value e = atPlaces halfUp (places p) (value d)

section Exact

/- A decimal as its coefficient and its exponent, with the operations as they are documented. -/
structure Exact where
  coefficient : ℤ
  exponent : ℤ
  deriving DecidableEq, Repr

namespace Exact

def value (d : Exact) : ℚ := d.coefficient*(10 : ℚ)^d.exponent

def rounded (r : ℚ → ℤ) (p : ℕ) (x : ℚ) : Exact := ⟨r (x*10^p),-p⟩

def aligned (d : Exact) (e : ℤ) : ℤ := d.coefficient*10^(d.exponent-e).toNat

def add (d e : Exact) : Exact :=
  let low := min d.exponent e.exponent
  ⟨d.aligned low + e.aligned low,low⟩

def fraction : ℕ → ℕ → Text
  | 0, _ => []
  | p+1, n => fraction p (n/10) ++ [Nat.digitChar (n%10)]

def sign (n : ℤ) : Text := if n < 0 then ['-'] else []

def fixed (n : ℤ) (p : ℕ) : Text :=
  sign n ++ Nat.toDigits 10 (n.natAbs/10^p) ++ ((if p = 0 then [] else ['.']) ++ fraction p (n.natAbs%10^p))

def scientific (t : Text) : Option (Text × ℤ) :=
  match t.dropWhile (fun c => c != 'e' && c != 'E') with
  | [] => some (t,0)
  | _::e => ((Text.signed e).filter (Text.fits 32)).map (fun e => (t.takeWhile (fun c => c != 'e' && c != 'E'),e))

def unpointed (t : Text) : Text × ℕ :=
  (t.takeWhile (· != '.') ++ (t.dropWhile (· != '.')).drop 1,((t.dropWhile (· != '.')).drop 1).length)

def read (t : Text) : Option Exact := do
  let (m,e) ← scientific t
  let (digits,after) := unpointed m
  let v ← Text.signed digits
  if Text.fits 32 (e-after) then some ⟨v,e-after⟩ else none

theorem valueRounded (r : ℚ → ℤ) (p : ℕ) (x : ℚ) : value (rounded r p x) = atPlaces r p x := by
  rw [value,rounded,zpow_neg,zpow_natCast,atPlaces,div_eq_mul_inv]

theorem valueAligned {d : Exact} {e : ℤ} (low : e ≤ d.exponent) : (d.aligned e : ℚ)*(10 : ℚ)^e = value d := by
  have whole : ((10 : ℚ)^(d.exponent-e).toNat)*(10 : ℚ)^e = (10 : ℚ)^d.exponent := by
    rw [← zpow_natCast,Int.toNat_of_nonneg (by omega),← zpow_add₀ (by norm_num)]
    congr 1
    omega
  rw [aligned,value,← whole]
  push_cast
  ring

theorem valueAdd (d e : Exact) : value (add d e) = value d + value e := by
  rw [← valueAligned (min_le_left d.exponent e.exponent),← valueAligned (min_le_right d.exponent e.exponent),
    value,add]
  push_cast
  ring

theorem fractionLength (p n : ℕ) : (fraction p n).length = p := by
  induction p generalizing n with
  | zero => rfl
  | succ p ih => rw [fraction,List.length_append,ih,List.length_singleton]

theorem fractionDigits (p n : ℕ) : ∀ c ∈ fraction p n, c.isDigit = true := by
  induction p generalizing n with
  | zero => simp [fraction]
  | succ p ih =>
    intro c mem
    rcases List.mem_append.mp mem with front | last
    · exact ih _ c front
    · rw [List.mem_singleton.mp last,Nat.isDigit_digitChar]
      exact decide_eq_true (Nat.mod_lt _ (by decide))

theorem fractionRead (p n init : ℕ) : Nat.ofDigitChars 10 (fraction p n) init = 10^p*init + n%10^p := by
  induction p generalizing n init with
  | zero => simp [fraction,Nat.mod_one]
  | succ p ih =>
    rw [fraction,Nat.ofDigitChars_append,ih,
      Nat.ofDigitChars_cons_digitChar_of_lt_ten (Nat.mod_lt _ (by decide)),Nat.ofDigitChars_nil]
    have split : n % 10^(p+1) = n%10 + 10*(n/10 % 10^p) := by
      rw [Nat.pow_succ',Nat.mod_mul]
    rw [split,Nat.pow_succ']
    ring

theorem wholeDigits (m : ℕ) : ∀ c ∈ Nat.toDigits 10 m, c.isDigit = true :=
  fun _ mem => Nat.isDigit_of_mem_toDigits (by decide) (by decide) mem

theorem digitsRead (m p : ℕ) : Text.digits (Nat.toDigits 10 (m/10^p) ++ fraction p (m%10^p)) = some m := by
  have all : (Nat.toDigits 10 (m/10^p) ++ fraction p (m%10^p)).all Char.isDigit = true := by
    rw [List.all_append,List.all_eq_true.mpr (wholeDigits _),List.all_eq_true.mpr (fractionDigits _ _)]
    rfl
  have some : Nat.toDigits 10 (m/10^p) ++ fraction p (m%10^p) ≠ [] :=
    fun none => Nat.toDigits_ne_nil (List.append_eq_nil_iff.mp none).1
  rw [Text.digits,if_pos ⟨some,all⟩,Nat.ofDigitChars_append,Nat.ofDigitChars_ten_toDigits,fractionRead,
    Nat.mod_mod,Nat.div_add_mod]

theorem signedRead (n : ℤ) (p : ℕ) :
    Text.signed (sign n ++ (Nat.toDigits 10 (n.natAbs/10^p) ++ fraction p (n.natAbs%10^p))) = some n := by
  unfold sign
  split
  · rw [List.singleton_append,Text.signed,digitsRead,Option.map_some]
    congr 1
    omega
  · rw [List.nil_append,Text.signedDigits (digitsRead n.natAbs p)]
    congr 1
    omega

theorem frontPlain (n : ℤ) (m : ℕ) : ∀ c ∈ sign n ++ Nat.toDigits 10 m, plain c = true ∧ c ≠ '.' := by
  have digit {c : Char} (is : c.isDigit = true) : plain c = true ∧ c ≠ '.' := by
    refine ⟨by simp [plain,is],fun same => ?_⟩
    rw [same] at is
    exact absurd is (by decide)
  intro c mem
  rcases List.mem_append.mp mem with front | back
  · unfold sign at front
    split at front
    · rw [List.mem_singleton.mp front]
      decide
    · exact absurd front List.not_mem_nil
  · exact digit (wholeDigits m c back)

theorem fixedPlain (n : ℤ) (p : ℕ) : ∀ c ∈ fixed n p, plain c = true := by
  intro c mem
  rcases List.mem_append.mp mem with front | back
  · exact (frontPlain n _ c front).1
  rcases List.mem_append.mp back with point | last
  · split at point
    · exact absurd point List.not_mem_nil
    · rw [List.mem_singleton.mp point]
      decide
  · simp [plain,fractionDigits p _ c last]

theorem plainUnexponential {t : Text} (all : ∀ c ∈ t, plain c = true) : scientific t = some (t,0) := by
  have stays : t.dropWhile (fun c => c != 'e' && c != 'E') = [] := by
    rw [List.dropWhile_eq_nil_iff]
    intro c mem
    have is := all c mem
    by_contra exponential
    simp only [Bool.and_eq_true,bne_iff_ne,ne_eq,not_and_or,not_not] at exponential
    rcases exponential with rfl | rfl <;> exact absurd is (by decide)
  rw [scientific,stays]

theorem unpointedFixed (n : ℤ) (p : ℕ) : unpointed (fixed n p) =
    (sign n ++ (Nat.toDigits 10 (n.natAbs/10^p) ++ fraction p (n.natAbs%10^p)),p) := by
  have front : ∀ c ∈ sign n ++ Nat.toDigits 10 (n.natAbs/10^p), (c != '.') = true :=
    fun c mem => bne_iff_ne.mpr (frontPlain n _ c mem).2
  rw [fixed,unpointed,List.takeWhile_append_of_pos front,List.dropWhile_append_of_pos front]
  cases p with
  | zero => simp [fraction]
  | succ p =>
    simp only [Nat.add_eq_zero_iff,one_ne_zero,and_false,if_false,List.singleton_append,bne_self_eq_false,
      Bool.false_eq_true,not_false_eq_true,List.takeWhile_cons_of_neg,List.dropWhile_cons_of_neg,List.append_nil,
      List.drop_succ_cons,List.drop_zero,fractionLength,List.append_assoc]

theorem readFixed (n : ℤ) {p : ℕ} (small : p < 2147483648) : read (fixed n p) = some ⟨n,-p⟩ := by
  have fits : Text.fits 32 (-(p : ℤ)) = true := by
    simp only [Text.fits,decide_eq_true_eq]
    constructor <;> norm_num <;> omega
  simp only [read,plainUnexponential (fixedPlain n p),unpointedFixed,signedRead,bind,Option.bind_some,zero_sub,
    fits,if_true]

end Exact

def exact : Decimals where
  Dec := Exact
  value := Exact.value
  exponent d := Int32.ofInt d.exponent
  zero := ⟨0,0⟩
  new v e := ⟨v.toInt,e.toInt⟩
  newFromInt v := ⟨v.toInt,0⟩
  newFromString := Exact.read
  stringFixed d p := Exact.fixed (halfUp (d.value*10^places p)) (places p)
  neg d := ⟨-d.coefficient,d.exponent⟩
  abs d := ⟨|d.coefficient|,d.exponent⟩
  add := Exact.add
  sub d e := Exact.add d ⟨-e.coefficient,e.exponent⟩
  mul d e := ⟨d.coefficient*e.coefficient,d.exponent+e.exponent⟩
  div d e := Exact.rounded halfUp divisionPrecision (d.value/e.value)
  truncate d p := Exact.rounded down (places p) d.value
  round d p := Exact.rounded halfUp (places p) d.value
  roundDown d p := Exact.rounded down (places p) d.value
  roundUp d p := Exact.rounded up (places p) d.value
  roundBank d p := Exact.rounded halfEven (places p) d.value
  isNegative d := decide (d.coefficient < 0)
  equal d e := decide (d.value = e.value)
  intPart d := Int64.ofInt (down d.value)
  valueZero := by simp [Exact.value]
  valueNew v e := rfl
  valueInt v := by simp [Exact.value]
  valueNeg d := by simp [Exact.value]
  valueAbs d := by simp [Exact.value,abs_mul,abs_of_pos (zpow_pos (by norm_num : (0 : ℚ) < 10) d.exponent)]
  valueAdd := Exact.valueAdd
  valueSub d e := by
    rw [Exact.valueAdd,sub_eq_add_neg]
    simp [Exact.value]
  valueMul d e := by
    simp only [Exact.value,zpow_add₀ (by norm_num : (10 : ℚ) ≠ 0),Int.cast_mul]
    ring
  valueDiv d e nonzero := Exact.valueRounded _ _ _
  valueTruncate d p positive := Exact.valueRounded _ _ _
  valueRound d p positive := Exact.valueRounded _ _ _
  valueRoundDown d p positive := Exact.valueRounded _ _ _
  valueRoundUp d p positive := Exact.valueRounded _ _ _
  valueRoundBank d p positive := Exact.valueRounded _ _ _
  negativeIff d := by
    have pos : (0 : ℚ) < 10^d.exponent := zpow_pos (by norm_num) _
    rw [decide_eq_true_eq,Exact.value,mul_neg_iff]
    constructor
    · exact fun neg => .inr ⟨by exact_mod_cast neg,pos⟩
    · rintro (⟨-,neg⟩ | ⟨neg,-⟩)
      · exact absurd neg (not_lt_of_gt pos)
      · exact_mod_cast neg
  equalIff d e := decide_eq_true_iff
  intPartValue d fits := rfl
  readExponent t d ok := by
    simp only [Exact.read,bind,Option.bind_eq_some_iff] at ok
    obtain ⟨⟨m,e⟩,-,v,-,last⟩ := ok
    split at last <;> try contradiction
    rename_i fits
    cases Option.some.inj last
    simp only [Text.fits,decide_eq_true_eq] at fits
    exact ⟨v,by rw [Exact.value,Int32.toInt_ofInt_of_le fits.1 fits.2]⟩
  fixedPlain d p positive := Exact.fixedPlain _ _
  fixedReads d p positive := by
    have small : places p < 2147483648 := by
      have := p.toInt_lt
      unfold places
      omega
    exact ⟨_,Exact.readFixed _ small,Exact.valueRounded _ _ _⟩

end Exact

end DevkitCommon.Moneyx
