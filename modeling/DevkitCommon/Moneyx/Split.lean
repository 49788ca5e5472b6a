import DevkitCommon.Moneyx.Shares

/-! Splitting an amount into parts of one size, as far as the units allow. The size comes from a
quotient of sixteen decimals: where that is no whole number of units, or rounds up to the next
one, the rest is not what the loop hands out. -/
namespace DevkitCommon.Moneyx
open Rounding Words

structure EvenSplit (us : List ℤ) (n : ℕ) (k : ℤ) : Prop where
  length : us.length = n
  sum : us.sum = k
  near : ∀ a ∈ us, ∀ b ∈ us, |a-b| ≤ 1
  largerFirst : us.Pairwise (fun a b => |b| ≤ |a|)

theorem evenBump {d b k : ℤ} {j n : ℕ} (unit : |d| = 1) : EvenSplit (bump d j (List.replicate n b)) n k ↔
    n*b+d*min j n = k ∧ (min j n = 0 ∨ min j n = n ∨ |b| ≤ |b+d|) := by
  have sum : (bump d j (List.replicate n b)).sum = n*b+d*min j n := by
    rw [bumpSum,List.sum_replicate,List.length_replicate,nsmul_eq_mul,Nat.cast_min]
  have ordered : (bump d j (List.replicate n b)).Pairwise (fun a b => |b| ≤ |a|) ↔
      (min j n = 0 ∨ min j n = n ∨ |b| ≤ |b+d|) := by
    rw [bumpReplicate,List.pairwise_append,List.pairwise_replicate,List.pairwise_replicate]
    simp only [le_refl,or_true,true_and,List.mem_replicate]
    constructor
    · intro all
      by_cases none : min j n = 0
      · exact .inl none
      by_cases every : min j n = n
      · exact .inr (.inl every)
      exact .inr (.inr (all (b+d) ⟨none,rfl⟩ b ⟨by omega,rfl⟩))
    · rintro cases _ ⟨some,rfl⟩ _ ⟨left,rfl⟩
      rcases cases with none | every | larger
      · exact absurd none some
      · exact absurd every (by omega)
      · exact larger
  have near : ∀ x ∈ bump d j (List.replicate n b), ∀ y ∈ bump d j (List.replicate n b), |x-y| ≤ 1 := by
    have one : ∀ x ∈ bump d j (List.replicate n b), x = b+d ∨ x = b := by
      intro x mem
      rw [bumpReplicate] at mem
      rcases List.mem_append.mp mem with front | back
      · exact .inl (List.eq_of_mem_replicate front)
      · exact .inr (List.eq_of_mem_replicate back)
    intro x hx y hy
    rcases one x hx with rfl | rfl <;> rcases one y hy with rfl | rfl <;> simp [unit]
  constructor
  · intro even
    exact ⟨sum.symm.trans even.sum,ordered.mp even.largerFirst⟩
  · rintro ⟨total,order⟩
    exact ⟨by rw [bumpLength,List.length_replicate],sum.trans total,near,ordered.mpr order⟩

theorem largerIff {b d : ℤ} (some : d < 0 → 0 < b) (unit : d = 1 ∨ d = -1) (positive : 0 ≤ b) :
    |b| ≤ |b+d| ↔ d = 1 := by
  rcases unit with rfl | rfl
  · rw [abs_of_nonneg positive,abs_of_nonneg (by omega)]
    omega
  · have := some (by decide)
    rw [abs_of_nonneg positive,abs_of_nonneg (by omega)]
    omega

theorem evenRest {k b : ℤ} {n j B : ℕ} (small : n < 9223372036854775808)
    (size : b = B ∧ 0 ≤ k ∨ b = -B ∧ k ≤ 0)
    (units : (k-n*b).natAbs < 9223372036854775808 → j = (k-n*b).natAbs) :
    EvenSplit (bump (if k-n*b < 0 then -1 else 1) j (List.replicate n b)) n k ↔
      (n*B ≤ k.natAbs ∧ k.natAbs ≤ n*B+n) ∨ k.natAbs+n = n*B := by
  have some (less : k.natAbs < n*B) : 0 < B := Nat.pos_of_ne_zero (fun none => by simp [none] at less)
  have unit : |if k-n*b < 0 then (-1 : ℤ) else 1| = 1 := by split <;> rfl
  rw [evenBump unit]
  rcases size with ⟨rfl,positive⟩ | ⟨rfl,negative⟩
  · have product : (n : ℤ)*B = (n*B : ℕ) := (Int.natCast_mul n B).symm
    rw [product] at units ⊢
    split
    · rename_i less
      rw [largerIff (fun _ => by have := some (by omega); omega) (.inr rfl) (by omega)]
      omega
    · rw [largerIff (fun _ => by omega) (.inl rfl) (by omega)]
      omega
  · have product : (n : ℤ)*(-B) = -(n*B : ℕ) := by push_cast; ring
    have flip (d : ℤ) : |-(B : ℤ)| ≤ |-(B : ℤ)+d| ↔ |(B : ℤ)| ≤ |(B : ℤ)+(-d)| := by
      rw [abs_neg,show -(B : ℤ)+d = -((B : ℤ)+(-d)) by ring,abs_neg]
    rw [product] at units ⊢
    rw [flip]
    split
    · rename_i less
      rw [neg_neg,largerIff (fun _ => by omega) (.inl rfl) (by omega)]
      omega
    · rename_i more
      by_cases even : k.natAbs = n*B
      · omega
      · rw [largerIff (fun _ => by have := some (by omega); omega) (.inr rfl) (by omega)]
        omega

/- What n parts of K units leave: with up to sixteen decimals the size is not rounded up to the
next unit, and beyond them the rest at a multiple of a sixteenth decimal is at most one unit a
part, or is one unit too much for every part. -/
def SplitsWhole (p K n : ℕ) : Prop :=
  if p ≤ divisionPrecision then n < 2*10^(divisionPrecision-p)*(n-K%n)
  else
    let unit := 10^(p-divisionPrecision)
    let nearest := n*((2*K+n*unit)/(2*(n*unit))*unit)
    nearest ≤ K ∧ K ≤ nearest+n ∨ K+n = nearest
instance (p K n) : Decidable (SplitsWhole p K n) := by unfold SplitsWhole; infer_instance

variable {L : Decimals} (reg : Registry)

def SplitsEvenly [Letters] (m : Money L) (n : Int64) (k : ℤ) : Prop :=
  ∃ parts us, m.split reg n = .ok parts ∧ (∀ q ∈ parts, q.currency = m.currency) ∧
    InUnits (places (scale reg m.currency)) parts us ∧ EvenSplit us n.toInt.toNat k

theorem splitUnits [Letters] (m : Money L) {n : Int64} {k : ℤ} (positive : 0 ≤ (scale reg m.currency).toInt)
    (whole : L.value m.amount = (k : ℚ)/10^places (scale reg m.currency)) (some : 0 < n.toInt) {b : ℤ}
    (size : carried (places (scale reg m.currency)) ((k : ℚ)/n.toInt.toNat) = b) :
    ∃ parts j, m.split reg n = .ok parts ∧ (∀ q ∈ parts, q.currency = m.currency) ∧
      InUnits (places (scale reg m.currency)) parts
        (bump (if k-n.toInt.toNat*b < 0 then -1 else 1) j (List.replicate n.toInt.toNat b)) ∧
      ((k-n.toInt.toNat*b).natAbs < 9223372036854775808 → j = (k-n.toInt.toNat*b).natAbs) := by
  have cast : (n.toInt : ℚ) = n.toInt.toNat := by
    rw [← Int.cast_natCast,Int.toNat_of_nonneg some.le]
  have nonzero : L.value (L.newFromInt n) ≠ 0 := by
    rw [L.valueInt]
    exact_mod_cast some.ne'
  have share : L.value m.amount/L.value (L.newFromInt n) =
      (k : ℚ)/n.toInt.toNat/10^places (scale reg m.currency) := by
    rw [whole,L.valueInt,cast,div_right_comm]
  have base := shareValue positive nonzero share
  rw [size] at base
  have rest : L.value (L.sub m.amount (L.mul (L.truncate (L.div m.amount (L.newFromInt n)) (scale reg m.currency))
      (L.newFromInt n))) = ((k-n.toInt.toNat*b : ℤ) : ℚ)/10^places (scale reg m.currency) := by
    rw [L.valueSub,L.valueMul,base,whole,L.valueInt,cast]
    push_cast
    ring
  have out : InUnits (places (scale reg m.currency))
      (List.replicate n.toInt.toNat (⟨L.truncate (L.div m.amount (L.newFromInt n)) (scale reg m.currency),m.currency⟩
        : Money L)) (List.replicate n.toInt.toNat b) := by
    simp only [InUnits,List.map_replicate,base]
  obtain ⟨j,units,small⟩ := handOutRestUnits positive rest out
  have more : ¬ n ≤ 0 := fun none => by
    have := Int64.le_iff_toInt_le.mp none
    rw [Int64.toInt_zero] at this
    omega
  refine ⟨_,j,by rw [Money.split,if_neg more],?_,units,small⟩
  exact handOutKeeps (fun _ same => same) _ (fun q mem => by rw [List.eq_of_mem_replicate mem])

theorem splitsIff [Letters] {m : Money L} {n : Int64} {k : ℤ} {parts : List (Money L)} {us : List ℤ}
    (ok : m.split reg n = .ok parts) (currency : ∀ q ∈ parts, q.currency = m.currency)
    (units : InUnits (places (scale reg m.currency)) parts us) :
    SplitsEvenly reg m n k ↔ EvenSplit us n.toInt.toNat k := by
  constructor
  · rintro ⟨parts',us',ok',-,units',even⟩
    cases Except.ok.inj (ok.symm.trans ok')
    exact inUnitsUnique units' units ▸ even
  · exact fun even => ⟨parts,us,ok,currency,units,even⟩

theorem splits [Letters] (m : Money L) {n : Int64} {k : ℤ} (positive : 0 ≤ (scale reg m.currency).toInt)
    (whole : L.value m.amount = (k : ℚ)/10^places (scale reg m.currency)) (some : 0 < n.toInt) :
    SplitsEvenly reg m n k ↔ SplitsWhole (places (scale reg m.currency)) k.natAbs n.toInt.toNat := by
  have pos : 0 < n.toInt.toNat := by omega
  have small : n.toInt.toNat < 9223372036854775808 := by
    have := n.toInt_lt
    omega
  generalize size : carried (places (scale reg m.currency)) ((k : ℚ)/n.toInt.toNat) = b
  obtain ⟨parts,j,ok,currency,units,fits⟩ := splitUnits reg m positive whole some size
  have signs := carriedSign (places (scale reg m.currency)) k n.toInt.toNat
  rw [splitsIff reg ok currency units]
  by_cases few : places (scale reg m.currency) ≤ divisionPrecision
  · rw [size,carriedDiv few _ pos,roundedUpIff pos (Nat.pow_pos (by decide))] at signs
    rw [evenRest small signs fits,SplitsWhole,if_pos few]
    have exact := Nat.div_add_mod k.natAbs n.toInt.toNat
    have rest := Nat.mod_lt k.natAbs pos
    rw [Nat.mul_add]
    split
    · rename_i low
      exact ⟨fun _ => low,fun _ => by omega⟩
    · rename_i up
      refine ⟨fun even => ?_,fun low => absurd low up⟩
      have none : k.natAbs % n.toInt.toNat = 0 := by omega
      have twice : 2*n.toInt.toNat ≤ 2*10^(divisionPrecision-places (scale reg m.currency))*n.toInt.toNat :=
        Nat.mul_le_mul_right _ (Nat.le_mul_of_pos_right 2 (by positivity))
      rw [none,Nat.sub_zero]
      omega
  · rw [size,carriedWide (Nat.le_of_not_le few) _ pos] at signs
    rw [evenRest small signs fits,SplitsWhole,if_neg few]

def dollar : Money exact := ⟨Exact.mk 1 0,"USD".toList⟩

theorem dollarSplits : SplitsEvenly scales dollar 3 100 :=
  (splits scales dollar (by decide)
    (by simp only [show places (scale scales dollar.currency) = 2 by decide +kernel]; decide +kernel)
    (by decide)).mpr (by decide)

def token : Registry := registerCurrency scales "TOKEN".toList 18

def hundredUnits : Money exact := ⟨Exact.mk 100 (-18),"TOKEN".toList⟩

theorem hundredLost : exact.value hundredUnits.amount = 100/10^18 ∧ ¬ SplitsEvenly token hundredUnits 3 100 := by
  have ones : (hundredUnits.split token 3).toOption.map (fun parts => parts.map (fun q => exact.value q.amount)) =
      some [1/10^18,1/10^18,1/10^18] := by decide +kernel
  have decimals : places (scale token hundredUnits.currency) = 18 := by decide
  refine ⟨by decide +kernel,?_⟩
  rintro ⟨parts,us,ok,-,units,even⟩
  rw [ok] at ones
  have units' : InUnits (places (scale token hundredUnits.currency)) parts [1,1,1] := by
    rw [decimals]
    exact (Option.some.inj ones).trans (by norm_num)
  cases inUnitsUnique units units'
  exact absurd even.sum (by decide)

end DevkitCommon.Moneyx
