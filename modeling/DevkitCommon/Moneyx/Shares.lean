import DevkitCommon.Moneyx.Money
import Mathlib.Algebra.BigOperators.Group.List.Basic

/-! Shares in units of the smallest unit of a currency: what a quotient of sixteen decimals cut
to the currency's decimals comes to, and what the units handed out make of it. -/
namespace DevkitCommon.Moneyx
open Rounding

def carried (p : ℕ) (x : ℚ) : ℤ := down (atPlaces halfUp divisionPrecision (x/10^p)*10^p)

theorem carriedNeg (p : ℕ) (x : ℚ) : carried p (-x) = -carried p x := by
  have half : atPlaces halfUp divisionPrecision (-x/10^p) = -atPlaces halfUp divisionPrecision (x/10^p) := by
    rw [atPlaces,neg_div,neg_mul,halfUpNeg,Int.cast_neg,neg_div,atPlaces]
  rw [carried,half,neg_mul,downNeg,carried]

theorem carriedSign (p : ℕ) (k : ℤ) (x : ℚ) : carried p (k/x) = carried p (k.natAbs/x) ∧ 0 ≤ k ∨
    carried p (k/x) = -carried p (k.natAbs/x) ∧ k ≤ 0 := by
  rcases le_total 0 k with positive | negative
  · exact .inl ⟨by rw [Nat.cast_natAbs,abs_of_nonneg positive],positive⟩
  · refine .inr ⟨?_,negative⟩
    rw [Nat.cast_natAbs,abs_of_nonpos negative,Int.cast_neg,neg_div,carriedNeg,neg_neg]

theorem carriedDiv {p : ℕ} (few : p ≤ divisionPrecision) (a : ℕ) {b : ℕ} (pos : 0 < b) :
    carried p ((a : ℚ)/b) =
      ((2*(a*10^(divisionPrecision-p))+b)/(2*b*10^(divisionPrecision-p)) : ℕ) := by
  have all : (10 : ℚ)^divisionPrecision = 10^(divisionPrecision-p)*10^p := by rw [← pow_add,Nat.sub_add_cancel few]
  have inner : (a : ℚ)/b/10^p*10^divisionPrecision = ((a*10^(divisionPrecision-p) : ℕ) : ℚ)/b := by
    rw [all]
    push_cast
    field_simp
  have outer (h : ℕ) : ((h : ℤ) : ℚ)/10^divisionPrecision*10^p = (h : ℚ)/((10^(divisionPrecision-p) : ℕ) : ℚ) := by
    rw [all]
    push_cast
    field_simp
  rw [carried,atPlaces,inner,halfUpDiv _ pos,outer,downDiv,Nat.div_div_eq_div_mul]

theorem carriedWide {p : ℕ} (many : divisionPrecision ≤ p) (a : ℕ) {b : ℕ} (pos : 0 < b) :
    carried p ((a : ℚ)/b) =
      ((2*a+b*10^(p-divisionPrecision))/(2*(b*10^(p-divisionPrecision)))*10^(p-divisionPrecision) : ℕ) := by
  have all : (10 : ℚ)^p = 10^(p-divisionPrecision)*10^divisionPrecision := by rw [← pow_add,Nat.sub_add_cancel many]
  have inner : (a : ℚ)/b/10^p*10^divisionPrecision = (a : ℚ)/((b*10^(p-divisionPrecision) : ℕ) : ℚ) := by
    rw [all]
    push_cast
    field_simp
  have outer (h : ℕ) : ((h : ℤ) : ℚ)/10^divisionPrecision*10^p = ((h*10^(p-divisionPrecision) : ℕ) : ℤ) := by
    rw [all]
    push_cast
    field_simp
  rw [carried,atPlaces,inner,halfUpDiv _ (Nat.mul_pos pos (by positivity)),outer,downInt]

theorem roundedUpIff {K n R : ℕ} (pos : 0 < n) (unit : 0 < R) :
    (2*(K*R)+n)/(2*n*R) = K/n+(if n < 2*R*(n-K%n) then 0 else 1) := by
  have rest := Nat.mod_lt K pos
  have split : 2*(K*R)+n = 2*n*R*(K/n) + (2*(K%n)*R+n) := by
    calc 2*(K*R)+n = 2*((n*(K/n)+K%n)*R)+n := by rw [Nat.div_add_mod]
      _ = 2*n*R*(K/n)+(2*(K%n)*R+n) := by ring
  have whole : 2*R*(n-K%n)+2*(K%n)*R = 2*n*R := by
    calc 2*R*(n-K%n)+2*(K%n)*R = 2*R*(n-K%n+K%n) := by ring
      _ = 2*n*R := by rw [Nat.sub_add_cancel rest.le]; ring
  have below : 2*(K%n)*R+n < 2*n*R*2 := by
    have : 2*(K%n+1)*R ≤ 2*n*R := Nat.mul_le_mul_right R (Nat.mul_le_mul_left 2 rest)
    have : n ≤ 2*n*R := by
      calc n ≤ n*(2*R) := Nat.le_mul_of_pos_right n (by omega)
        _ = 2*n*R := by ring
    have : 2*(K%n)*R + 2*R = 2*(K%n+1)*R := by ring
    omega
  have positive : 0 < 2*n*R := Nat.mul_pos (by omega) unit
  rw [split,Nat.mul_add_div positive]
  congr 1
  split
  · exact Nat.div_eq_of_lt (by omega)
  · rename_i up
    exact Nat.div_eq_of_lt_le (by omega) (by omega)

def bump (d : ℤ) : ℕ → List ℤ → List ℤ
  | j+1, u::us => (u+d)::bump d j us
  | _, us => us

theorem bumpLength (d : ℤ) (j : ℕ) (us : List ℤ) : (bump d j us).length = us.length := by
  fun_induction bump d j us with
  | case1 j u us ih => simp only [List.length_cons,ih]
  | case2 j us => rfl

theorem bumpSum (d : ℤ) (j : ℕ) (us : List ℤ) : (bump d j us).sum = us.sum+d*min j us.length := by
  induction us generalizing j with
  | nil => cases j <;> simp [bump]
  | cons u us ih =>
    cases j with
    | zero => simp [bump]
    | succ j =>
      simp only [bump,List.sum_cons,List.length_cons,ih]
      push_cast
      rw [min_add_add_right]
      ring

theorem bumpNeg (d : ℤ) (j : ℕ) (us : List ℤ) : bump d j (us.map Neg.neg) = (bump (-d) j us).map Neg.neg := by
  induction us generalizing j with
  | nil => cases j <;> rfl
  | cons u us ih =>
    cases j with
    | zero => rfl
    | succ j =>
      simp only [List.map_cons,bump,ih]
      congr 1
      ring

theorem bumpReplicate (d b : ℤ) (j n : ℕ) :
    bump d j (List.replicate n b) = List.replicate (min j n) (b+d) ++ List.replicate (n-min j n) b := by
  induction n generalizing j with
  | zero => cases j <;> simp [bump]
  | succ n ih =>
    cases j with
    | zero => simp [bump]
    | succ j =>
      rw [List.replicate_succ,bump,ih,Nat.succ_min_succ,List.replicate_succ,List.cons_append,Nat.succ_sub_succ]

variable {L : Decimals}

def InUnits (p : ℕ) (parts : List (Money L)) (us : List ℤ) : Prop :=
  parts.map (fun m => L.value m.amount) = us.map (fun u : ℤ => (u : ℚ)/10^p)

theorem inUnitsLength {p : ℕ} {parts : List (Money L)} {us : List ℤ} (units : InUnits p parts us) :
    parts.length = us.length := by
  have := congrArg List.length units
  rwa [List.length_map,List.length_map] at this

theorem inUnitsUnique {p : ℕ} {parts : List (Money L)} {us vs : List ℤ} (left : InUnits p parts us)
    (right : InUnits p parts vs) : us = vs := by
  have injective : Function.Injective (fun u : ℤ => (u : ℚ)/10^p) := by
    intro u v same
    have nonzero : ((10 : ℚ)^p) ≠ 0 := by positivity
    exact_mod_cast (div_left_inj' nonzero).mp same
  exact List.map_injective_iff.mpr injective (left.symm.trans right)

theorem handOutUnits {p : ℕ} {step : L.Dec} {d : ℤ} (value : L.value step = (d : ℚ)/10^p) (j : ℕ)
    {out : List (Money L)} {us : List ℤ} (units : InUnits p out us) : InUnits p (handOut step j out) (bump d j us) := by
  induction out generalizing j us with
  | nil =>
    cases us with
    | nil => cases j <;> exact units
    | cons u us => exact absurd (inUnitsLength units) (by simp)
  | cons m out ih =>
    cases us with
    | nil => exact absurd (inUnitsLength units) (by simp)
    | cons u us =>
      cases j with
      | zero => exact units
      | succ j =>
        simp only [InUnits,List.map_cons,List.cons.injEq] at units
        have rest := ih j units.2
        simp only [InUnits,handOut,bump,List.map_cons,List.cons.injEq,L.valueAdd,units.1,value]
        exact ⟨by push_cast; ring,rest⟩

theorem handOutKeeps {p : Money L → Prop} {step : L.Dec} (keeps : ∀ m, p m → p {m with amount := L.add m.amount step})
    (j : ℕ) {out : List (Money L)} (all : ∀ m ∈ out, p m) : ∀ m ∈ handOut step j out, p m := by
  induction out generalizing j with
  | nil => cases j <;> simp [handOut]
  | cons m out ih =>
    cases j with
    | zero => exact all
    | succ j =>
      intro q mem
      rcases List.mem_cons.mp mem with rfl | rest
      · exact keeps m (all m List.mem_cons_self)
      · exact ih j (fun q mem => all q (List.mem_cons_of_mem _ mem)) q rest

theorem unitValue {s : Int32} (positive : 0 ≤ s.toInt) : L.value (L.new 1 (-s)) = 1/10^places s := by
  have small : (-s).toInt = -s.toInt := by
    rw [Int32.toInt_neg,Int.bmod_eq_of_le] <;> have := s.toInt_lt <;> omega
  rw [L.valueNew,small,Int64.toInt_one,Int.cast_one,one_mul,zpow_neg,one_div,places,← zpow_natCast,
    Int.toNat_of_nonneg positive]

theorem shareValue {s : Int32} (positive : 0 ≤ s.toInt) {a b : L.Dec} {x : ℚ} (nonzero : L.value b ≠ 0)
    (share : L.value a/L.value b = x/10^places s) :
    L.value (L.truncate (L.div a b) s) = (carried (places s) x : ℚ)/10^places s := by
  rw [L.valueTruncate _ _ positive,L.valueDiv _ _ nonzero,share,atPlaces,carried]

theorem handOutRestUnits {s : Int32} (positive : 0 ≤ s.toInt) {rem : L.Dec} {r : ℤ}
    (value : L.value rem = (r : ℚ)/10^places s) {out : List (Money L)} {us : List ℤ}
    (units : InUnits (places s) out us) :
    ∃ j : ℕ, InUnits (places s) (handOutRest (L.new 1 (-s)) rem out) (bump (if r < 0 then -1 else 1) j us) ∧
      (r.natAbs < 9223372036854775808 → j = r.natAbs) := by
  have pos : (0 : ℚ) < 10^places s := by positivity
  have sign : L.isNegative rem = decide (r < 0) := by
    rw [Bool.eq_iff_iff,L.negativeIff,value,decide_eq_true_eq,div_lt_iff₀ pos,zero_mul]
    exact_mod_cast Iff.rfl
  have rest : L.value (if L.isNegative rem then L.neg rem else rem) = (r.natAbs : ℚ)/10^places s := by
    rw [sign]
    by_cases neg : r < 0
    · have cast : (r.natAbs : ℚ) = -r := by rw [Nat.cast_natAbs,abs_of_neg neg,Int.cast_neg]
      rw [decide_eq_true neg,if_pos rfl,L.valueNeg,value,cast,neg_div]
    · have cast : (r.natAbs : ℚ) = r := by rw [Nat.cast_natAbs,abs_of_nonneg (not_lt.mp neg)]
      rw [decide_eq_false neg,if_neg (by decide),value,cast]
  have step : L.value (if L.isNegative rem then L.neg (L.new 1 (-s)) else L.new 1 (-s)) =
      ((if r < 0 then -1 else 1 : ℤ) : ℚ)/10^places s := by
    rw [sign]
    by_cases neg : r < 0
    · rw [decide_eq_true neg,if_pos rfl,if_pos neg,L.valueNeg,unitValue positive]
      push_cast
      ring
    · rw [decide_eq_false neg,if_neg (by decide),if_neg neg,unitValue positive]
      push_cast
      ring
  refine ⟨_,handOutUnits step _ units,fun small => ?_⟩
  have quotient : down (L.value (L.div (if L.isNegative rem then L.neg rem else rem) (L.new 1 (-s)))) = r.natAbs := by
    have ratio : (r.natAbs : ℚ)/10^places s/(1/10^places s) = ((r.natAbs : ℤ) : ℚ) := by
      rw [Int.cast_natCast]
      field_simp
    have whole : Multiple divisionPrecision ((r.natAbs : ℤ) : ℚ) :=
      ⟨r.natAbs*10^divisionPrecision,by push_cast; field_simp⟩
    rw [L.valueDiv _ _ (by rw [unitValue positive]; positivity),rest,unitValue positive,ratio,
      atPlacesSame halfUpInt whole,downInt]
  have fits : (Int64.ofInt (r.natAbs : ℤ)).toInt = r.natAbs :=
    Int64.toInt_ofInt_of_le (by omega) (by omega)
  rw [L.intPartValue _ (by rw [quotient,fits]),quotient,fits,Int.toNat_natCast]

end DevkitCommon.Moneyx
