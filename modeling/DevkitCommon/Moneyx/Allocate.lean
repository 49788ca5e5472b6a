import DevkitCommon.Moneyx.Shares
import Mathlib.Algebra.BigOperators.Ring.Finset
import Mathlib.Algebra.Order.BigOperators.Group.List

/-! Sharing an amount by weights. Every share is cut to whole units and the rest goes to the
first parts, whatever their weights: a part of weight zero gets a unit where it stands early. -/
namespace DevkitCommon.Moneyx
open Rounding Words

structure FairShares (ws us : List ℤ) (k : ℤ) : Prop where
  sum : us.sum = k
  fair : List.Forall₂ (fun w u => |u*ws.sum-k*w| ≤ ws.sum ∧ (w = 0 → u = 0)) ws us

section Weights
/- K units shared by weights of sum T, with R sixteenth decimals to the unit. -/
variable (K T R : ℕ)

def RoundsUp (w : ℕ) : Prop := 2*R*(T-K*w%T) ≤ T
instance (w : ℕ) : Decidable (RoundsUp K T R w) := by unfold RoundsUp; infer_instance

def share (w : ℕ) : ℕ := K*w/T+(if RoundsUp K T R w then 1 else 0)

def leftover (ws : List ℕ) : ℕ := (ws.map (fun w => K*w%T)).sum/T

def roundedUp (ws : List ℕ) : ℕ := ws.countP (fun w => RoundsUp K T R w)

/- The first parts, to which the units go, have a weight, and none has been rounded up already;
where more has been rounded up than is left, the units are taken from parts that can give one. -/
def HandsOut (ws : List ℕ) : Prop :=
  if roundedUp K T R ws ≤ leftover K T ws then
    ∀ w ∈ ws.take (leftover K T ws-roundedUp K T R ws), 0 < w ∧ ¬ RoundsUp K T R w
  else ∀ w ∈ ws.take (roundedUp K T R ws-leftover K T ws), 0 < w ∧ (RoundsUp K T R w ∨ K*w%T = 0)
instance (ws : List ℕ) : Decidable (HandsOut K T R ws) := by unfold HandsOut; infer_instance

variable {K T R}

theorem wholeShares (ws : List ℕ) :
    K*ws.sum = T*(ws.map (fun w => K*w/T)).sum+(ws.map (fun w => K*w%T)).sum := by
  induction ws with
  | nil => simp
  | cons w ws ih =>
    have one := Nat.div_add_mod (K*w) T
    simp only [List.sum_cons,List.map_cons,Nat.mul_add,ih]
    omega

theorem shareSum (ws : List ℕ) :
    (ws.map (share K T R)).sum = (ws.map (fun w => K*w/T)).sum+roundedUp K T R ws := by
  induction ws with
  | nil => rfl
  | cons w ws ih =>
    simp only [List.map_cons,List.sum_cons,ih,share,roundedUp,List.countP_cons,decide_eq_true_eq]
    omega

theorem restShares {ws : List ℕ} (pos : 0 < ws.sum) :
    (ws.map (share K ws.sum R)).sum+leftover K ws.sum ws = K+roundedUp K ws.sum R ws := by
  have whole := wholeShares (K := K) (T := ws.sum) ws
  have left : (ws.map (fun w => K*w%ws.sum)).sum = ws.sum*(K-(ws.map (fun w => K*w/ws.sum)).sum) := by
    rw [Nat.mul_sub,Nat.mul_comm ws.sum K]
    omega
  have few : (ws.map (fun w => K*w/ws.sum)).sum ≤ K := by
    have : ws.sum*(ws.map (fun w => K*w/ws.sum)).sum ≤ ws.sum*K := by
      rw [Nat.mul_comm ws.sum K]
      omega
    exact Nat.le_of_mul_le_mul_left this pos
  rw [shareSum,leftover,left,Nat.mul_div_cancel_left _ pos]
  omega

theorem roundsUpSome {w : ℕ} (unit : 0 < R) (pos : 0 < T) (up : RoundsUp K T R w) : 0 < w ∧ 0 < K*w%T := by
  have some : 0 < K*w%T := by
    by_contra none
    have zero : K*w%T = 0 := by omega
    have twice : 2*T ≤ 2*R*T := Nat.mul_le_mul_right T (by omega)
    rw [RoundsUp,zero,Nat.sub_zero] at up
    omega
  refine ⟨Nat.pos_of_ne_zero (fun none => ?_),some⟩
  rw [none,Nat.mul_zero,Nat.zero_mod] at some
  exact absurd some (lt_irrefl 0)

theorem sumBound {f : ℕ → ℕ} {c : ℕ} (bound : ∀ w, f w ≤ c*w) (ws : List ℕ) : (ws.map f).sum ≤ c*ws.sum := by
  induction ws with
  | nil => simp
  | cons w ws ih =>
    have := bound w
    simp only [List.map_cons,List.sum_cons,Nat.mul_add]
    omega

theorem leftoverBound (pos : 0 < T) (ws : List ℕ) : leftover K T ws ≤ ws.sum := by
  have bound (w : ℕ) : K*w%T ≤ T*w := by
    cases w with
    | zero => simp
    | succ w => exact (Nat.mod_lt _ pos).le.trans (Nat.le_mul_of_pos_right T (Nat.succ_pos w))
  exact Nat.div_le_of_le_mul (sumBound bound ws)

theorem leftoverLength (pos : 0 < T) (ws : List ℕ) : leftover K T ws ≤ ws.length := by
  have bound : (ws.map (fun w => K*w%T)).sum ≤ T*ws.length := by
    induction ws with
    | nil => simp
    | cons w ws ih =>
      have := Nat.mod_lt (K*w) pos
      simp only [List.map_cons,List.sum_cons,List.length_cons,Nat.mul_add]
      omega
  exact Nat.div_le_of_le_mul bound

theorem roundedUpBound (unit : 0 < R) (pos : 0 < T) (ws : List ℕ) : roundedUp K T R ws ≤ ws.sum := by
  induction ws with
  | nil => exact le_refl 0
  | cons w ws ih =>
    simp only [roundedUp,List.countP_cons,List.sum_cons,decide_eq_true_eq] at ih ⊢
    split
    · rename_i up
      have := (roundsUpSome unit pos up).1
      omega
    · omega

theorem shareError (w : ℕ) :
    (share K T R w : ℤ)*T-K*w = (if RoundsUp K T R w then (T : ℤ) else 0)-(K*w%T : ℕ) := by
  have exact : ((K*w : ℕ) : ℤ) = T*(K*w/T : ℕ)+(K*w%T : ℕ) := by exact_mod_cast (Nat.div_add_mod (K*w) T).symm
  rw [← Int.natCast_mul K w,exact,share]
  split <;> push_cast <;> ring

variable (K T R) in
def Fair (w u : ℤ) : Prop := |u*T-K*w| ≤ T ∧ (w = 0 → u = 0)

theorem fairShare (unit : 0 < R) (pos : 0 < T) (w : ℕ) : Fair K T w (share K T R w) := by
  have rest := Nat.mod_lt (K*w) pos
  constructor
  · rw [shareError,abs_le]
    split <;> omega
  · intro none
    have zero : w = 0 := by omega
    have down : ¬ RoundsUp K T R w := fun up => by
      have := (roundsUpSome unit pos up).1
      omega
    rw [share,if_neg down,zero,Nat.mul_zero,Nat.zero_div]
    rfl

theorem fairMore (pos : 0 < T) (w : ℕ) : Fair K T w (share K T R w+1) ↔ 0 < w ∧ ¬ RoundsUp K T R w := by
  have rest := Nat.mod_lt (K*w) pos
  have error : ((share K T R w : ℤ)+1)*T-K*w = T+((if RoundsUp K T R w then (T : ℤ) else 0)-(K*w%T : ℕ)) := by
    rw [← shareError]
    ring
  rw [Fair,error,abs_le]
  constructor
  · rintro ⟨⟨-,high⟩,zero⟩
    refine ⟨Nat.pos_of_ne_zero (fun none => ?_),fun up => ?_⟩
    · have := zero (by omega)
      omega
    · rw [if_pos up] at high
      omega
  · rintro ⟨some,down⟩
    rw [if_neg down]
    omega

theorem fairLess (unit : 0 < R) (pos : 0 < T) (w : ℕ) :
    Fair K T w (share K T R w-1) ↔ 0 < w ∧ (RoundsUp K T R w ∨ K*w%T = 0) := by
  have rest := Nat.mod_lt (K*w) pos
  have error : ((share K T R w : ℤ)-1)*T-K*w = ((if RoundsUp K T R w then (T : ℤ) else 0)-(K*w%T : ℕ))-T := by
    rw [← shareError]
    ring
  rw [Fair,error,abs_le]
  constructor
  · rintro ⟨⟨low,-⟩,zero⟩
    refine ⟨Nat.pos_of_ne_zero (fun none => ?_),?_⟩
    · have one := zero (by omega)
      have share := (fairShare (K := K) unit pos w).2 (by omega)
      omega
    · by_cases up : RoundsUp K T R w
      · exact .inl up
      · rw [if_neg up] at low
        omega
  · rintro ⟨some,up | none⟩
    · rw [if_pos up]
      omega
    · split <;> omega

theorem fairBump {d : ℤ} {j : ℕ} {f : ℕ → ℕ} (stays : ∀ w : ℕ, Fair K T w (f w)) (ws : List ℕ) :
    List.Forall₂ (Fair K T) (ws.map (fun w : ℕ => (w : ℤ))) (bump d j (ws.map (fun w => (f w : ℤ)))) ↔
      ∀ w ∈ ws.take j, Fair K T w (f w+d) := by
  induction ws generalizing j with
  | nil => cases j <;> simp [bump]
  | cons w ws ih =>
    cases j with
    | zero =>
      have rest := (ih (j := 0)).mpr (by simp)
      simp only [bump] at rest
      simp [bump,stays w,rest]
    | succ j => simp [bump,ih]

theorem fairIff {ws : List ℕ} (unit : 0 < R) (pos : 0 < ws.sum) {d : ℤ} {j : ℕ}
    (rest : j = ((K : ℤ)-(ws.map (share K ws.sum R)).sum).natAbs)
    (less : ((K : ℤ)-(ws.map (share K ws.sum R)).sum) < 0 → d = -1)
    (more : 0 < ((K : ℤ)-(ws.map (share K ws.sum R)).sum) → d = 1) :
    FairShares (ws.map (fun w : ℕ => (w : ℤ))) (bump d j (ws.map (fun w => (share K ws.sum R w : ℤ)))) K ↔
      HandsOut K ws.sum R ws := by
  have balance := restShares (K := K) (R := R) pos
  have short := leftoverLength (K := K) pos ws
  have few : roundedUp K ws.sum R ws ≤ ws.length := List.countP_le_length
  have total : (ws.map (fun w : ℕ => (w : ℤ))).sum = ws.sum := (Nat.cast_list_sum ws).symm
  have shares : (ws.map (fun w => (share K ws.sum R w : ℤ))).sum = ((ws.map (share K ws.sum R)).sum : ℕ) := by
    rw [Nat.cast_list_sum,List.map_map]
    rfl
  have sum : (bump d j (ws.map (fun w => (share K ws.sum R w : ℤ)))).sum = K := by
    rw [bumpSum,shares,List.length_map]
    rcases lt_trichotomy ((K : ℤ)-(ws.map (share K ws.sum R)).sum) 0 with neg | none | some
    · rw [less neg]
      omega
    · have zero : j = 0 := by omega
      rw [zero]
      simp only [Nat.cast_zero,zero_le,inf_of_le_left,mul_zero]
      omega
    · rw [more some]
      omega
  have fair : FairShares (ws.map (fun w : ℕ => (w : ℤ))) (bump d j (ws.map (fun w => (share K ws.sum R w : ℤ)))) K ↔
      ∀ w ∈ ws.take j, Fair K ws.sum w (share K ws.sum R w+d) := by
    rw [← fairBump (fairShare unit pos)]
    constructor
    · intro shared
      have each := shared.fair
      rw [total] at each
      exact each
    · exact fun each => ⟨sum,by rw [total]; exact each⟩
  rw [fair]
  unfold HandsOut
  split
  · rename_i up
    have same : j = leftover K ws.sum ws-roundedUp K ws.sum R ws := by omega
    rw [← same]
    by_cases none : j = 0
    · simp [none]
    · rw [more (by omega)]
      simp only [fairMore pos]
  · rename_i up
    have same : j = roundedUp K ws.sum R ws-leftover K ws.sum ws := by omega
    rw [← same,less (by omega)]
    simp only [← sub_eq_add_neg,fairLess unit pos]

end Weights

theorem fairNeg {ws us : List ℤ} {k : ℤ} : FairShares ws (us.map Neg.neg) (-k) ↔ FairShares ws us k := by
  have sum : (us.map Neg.neg).sum = -us.sum := us.sum_neg.symm
  have fair : List.Forall₂ (fun w u => |u*ws.sum-(-k)*w| ≤ ws.sum ∧ (w = 0 → u = 0)) ws (us.map Neg.neg) ↔
      List.Forall₂ (fun w u => |u*ws.sum-k*w| ≤ ws.sum ∧ (w = 0 → u = 0)) ws us := by
    rw [List.forall₂_map_right_iff]
    have flip (w u : ℤ) : -u*ws.sum-(-k)*w = -(u*ws.sum-k*w) := by ring
    simp only [flip,abs_neg,neg_eq_zero]
  constructor
  · exact fun shared => ⟨by have := shared.sum; omega,fair.mp shared.fair⟩
  · exact fun shared => ⟨by rw [sum,shared.sum],fair.mpr shared.fair⟩

variable {L : Decimals} (reg : Registry)

def weight (w : Int64) : ℕ := w.toInt.toNat

def SharesFairly [Letters] (m : Money L) (ws : List Int64) (k : ℤ) : Prop :=
  ∃ parts us, m.allocate reg ws = .ok parts ∧ (∀ q ∈ parts, q.currency = m.currency) ∧
    InUnits (places (scale reg m.currency)) parts us ∧ FairShares (ws.map (fun w => (weight w : ℤ))) us k

theorem totalSum {sum : Int64} {ws : List Int64} (positive : ∀ w ∈ ws, 0 ≤ w.toInt) (start : 0 ≤ sum.toInt)
    (fits : sum.toInt+(ws.map weight).sum < 9223372036854775808) :
    ∃ t, total sum ws = .ok t ∧ t.toInt = sum.toInt+(ws.map weight).sum := by
  induction ws generalizing sum with
  | nil => exact ⟨sum,rfl,by simp⟩
  | cons w ws ih =>
    have some := positive w List.mem_cons_self
    have cast : (weight w : ℤ) = w.toInt := Int.toNat_of_nonneg some
    simp only [List.map_cons,List.sum_cons,Nat.cast_add] at fits ⊢
    have added : (sum+w).toInt = sum.toInt+w.toInt := by
      rw [Int64.toInt_add,Int.bmod_eq_of_le] <;> norm_num <;> omega
    have notNegative : ¬ w < 0 := fun neg => by
      have := Int64.lt_iff_toInt_lt.mp neg
      rw [Int64.toInt_zero] at this
      omega
    obtain ⟨t,ok,same⟩ := @ih (sum+w) (fun v mem => positive v (List.mem_cons_of_mem _ mem)) (by omega) (by omega)
    exact ⟨t,by rw [total,if_neg notNegative,ok],by omega⟩

theorem carriedShare {p : ℕ} (few : p ≤ divisionPrecision) (k : ℤ) (w : ℕ) {T : ℕ} (pos : 0 < T) :
    carried p ((k : ℚ)*w/T) = (if k < 0 then -1 else 1)*share k.natAbs T (10^(divisionPrecision-p)) w := by
  have natural : carried p (((k.natAbs*w : ℕ) : ℚ)/T) = share k.natAbs T (10^(divisionPrecision-p)) w := by
    rw [carriedDiv few _ pos,roundedUpIff pos (Nat.pow_pos (by decide)),share]
    by_cases up : RoundsUp k.natAbs T (10^(divisionPrecision-p)) w
    · rw [if_pos up,if_neg (not_lt.mpr up)]
    · rw [if_neg up,if_pos (not_le.mp up)]
  split
  · rename_i neg
    have flip : (k : ℚ)*w/T = -(((k.natAbs*w : ℕ) : ℚ)/T) := by
      rw [Nat.cast_mul,Nat.cast_natAbs,abs_of_neg neg,Int.cast_neg]
      ring
    rw [flip,carriedNeg,natural,neg_one_mul]
  · rename_i positive
    have same : (k : ℚ)*w/T = ((k.natAbs*w : ℕ) : ℚ)/T := by
      rw [Nat.cast_mul,Nat.cast_natAbs,abs_of_nonneg (not_lt.mp positive)]
    rw [same,natural,one_mul]

theorem addedUnits {p : ℕ} {ds : List L.Dec} {us : List ℤ}
    (units : ds.map L.value = us.map (fun u : ℤ => (u : ℚ)/10^p)) (d : L.Dec) {u : ℤ} (start : L.value d = (u : ℚ)/10^p) :
    L.value (ds.foldl L.add d) = ((u+us.sum : ℤ) : ℚ)/10^p := by
  induction ds generalizing d u us with
  | nil =>
    cases us with
    | nil => simpa using start
    | cons v us => exact absurd units (by simp)
  | cons e ds ih =>
    cases us with
    | nil => exact absurd units (by simp)
    | cons v us =>
      simp only [List.map_cons,List.cons.injEq] at units
      have next : L.value (L.add d e) = ((u+v : ℤ) : ℚ)/10^p := by
        rw [L.valueAdd,start,units.1]
        push_cast
        ring
      rw [List.foldl_cons,ih units.2 (L.add d e) next,List.sum_cons,add_assoc]

def cutShares (k : ℤ) (p : ℕ) (ws : List ℕ) : List ℤ :=
  ws.map (fun w => (if k < 0 then -1 else 1)*share k.natAbs ws.sum (10^(divisionPrecision-p)) w)

theorem cutPositive {k : ℤ} (positive : ¬ k < 0) (p : ℕ) (ws : List ℕ) :
    cutShares k p ws = ws.map (fun w => (share k.natAbs ws.sum (10^(divisionPrecision-p)) w : ℤ)) := by
  simp only [cutShares,if_neg positive,one_mul]

theorem cutNegative {k : ℤ} (negative : k < 0) (p : ℕ) (ws : List ℕ) :
    cutShares k p ws = (ws.map (fun w => (share k.natAbs ws.sum (10^(divisionPrecision-p)) w : ℤ))).map Neg.neg := by
  simp only [cutShares,if_pos negative,neg_one_mul,List.map_map]
  rfl

theorem allocateUnits [Letters] (m : Money L) {ws : List Int64} {k : ℤ} (positive : 0 ≤ (scale reg m.currency).toInt)
    (few : places (scale reg m.currency) ≤ divisionPrecision)
    (whole : L.value m.amount = (k : ℚ)/10^places (scale reg m.currency)) (weights : ∀ w ∈ ws, 0 ≤ w.toInt)
    (some : 0 < (ws.map weight).sum) (fits : (ws.map weight).sum < 9223372036854775808) {us : List ℤ}
    (cut : cutShares k (places (scale reg m.currency)) (ws.map weight) = us) :
    ∃ parts j, m.allocate reg ws = .ok parts ∧ (∀ q ∈ parts, q.currency = m.currency) ∧
      InUnits (places (scale reg m.currency)) parts (bump (if k-us.sum < 0 then -1 else 1) j us) ∧
      ((k-us.sum).natAbs < 9223372036854775808 → j = (k-us.sum).natAbs) := by
  obtain ⟨t,ok,same⟩ := totalSum weights (le_of_eq Int64.toInt_zero.symm) (by rw [Int64.toInt_zero]; omega)
  rw [Int64.toInt_zero,zero_add] at same
  have nonzero : L.value (L.newFromInt t) ≠ 0 := by
    rw [L.valueInt,same]
    exact_mod_cast some.ne'
  have each : ∀ w ∈ ws, L.value (L.truncate (L.div (L.mul m.amount (L.newFromInt w)) (L.newFromInt t))
      (scale reg m.currency)) = (((if k < 0 then -1 else 1)*(share k.natAbs (ws.map weight).sum
      (10^(divisionPrecision-places (scale reg m.currency))) (weight w) : ℤ) : ℤ) : ℚ)/10^places (scale reg m.currency) := by
    intro w mem
    have cast : (w.toInt : ℚ) = (weight w : ℕ) := by
      rw [weight,← Int.cast_natCast,Int.toNat_of_nonneg (weights w mem)]
    have quotient : L.value (L.mul m.amount (L.newFromInt w))/L.value (L.newFromInt t) =
        (k : ℚ)*weight w/((ws.map weight).sum : ℕ)/10^places (scale reg m.currency) := by
      rw [L.valueMul,whole,L.valueInt,L.valueInt,cast,same,Int.cast_natCast]
      ring
    rw [shareValue positive nonzero quotient,carriedShare few k (weight w) some]
  have shares : (ws.map (fun w => L.truncate (L.div (L.mul m.amount (L.newFromInt w)) (L.newFromInt t))
      (scale reg m.currency))).map L.value = us.map (fun u : ℤ => (u : ℚ)/10^places (scale reg m.currency)) := by
    rw [← cut,cutShares,List.map_map,List.map_map,List.map_map]
    exact List.map_congr_left each
  have zero : L.value L.zero = ((0 : ℤ) : ℚ)/10^places (scale reg m.currency) := by simp [L.valueZero]
  have rest := addedUnits shares L.zero zero
  rw [zero_add] at rest
  have left : L.value (L.sub m.amount ((ws.map (fun w => L.truncate (L.div (L.mul m.amount (L.newFromInt w))
      (L.newFromInt t)) (scale reg m.currency))).foldl L.add L.zero)) =
      ((k-us.sum : ℤ) : ℚ)/10^places (scale reg m.currency) := by
    rw [L.valueSub,whole,rest]
    push_cast
    ring
  have out : InUnits (places (scale reg m.currency)) (ws.map (fun w => (⟨L.truncate (L.div (L.mul m.amount
      (L.newFromInt w)) (L.newFromInt t)) (scale reg m.currency),m.currency⟩ : Money L))) us := by
    rw [List.map_map] at shares
    rw [InUnits,List.map_map]
    exact shares
  obtain ⟨j,units,small⟩ := handOutRestUnits positive left out
  have more : t ≠ 0 := fun none => by
    rw [none,Int64.toInt_zero] at same
    omega
  refine ⟨_,j,?_,?_,units,small⟩
  · rw [Money.allocate,ok]
    exact if_neg more
  · exact handOutKeeps (fun _ same => same) _ (fun q mem => by
      obtain ⟨w,-,rfl⟩ := List.mem_map.mp mem
      rfl)

theorem sharesIff [Letters] {m : Money L} {ws : List Int64} {k : ℤ} {parts : List (Money L)} {us : List ℤ}
    (ok : m.allocate reg ws = .ok parts) (currency : ∀ q ∈ parts, q.currency = m.currency)
    (units : InUnits (places (scale reg m.currency)) parts us) :
    SharesFairly reg m ws k ↔ FairShares (ws.map (fun w => (weight w : ℤ))) us k := by
  constructor
  · rintro ⟨parts',us',ok',-,units',fair⟩
    cases Except.ok.inj (ok.symm.trans ok')
    exact inUnitsUnique units' units ▸ fair
  · exact fun fair => ⟨parts,us,ok,currency,units,fair⟩

def AllocatesFairly (p K : ℕ) (ws : List ℕ) : Prop :=
  p ≤ divisionPrecision ∧ ws.sum < 9223372036854775808 ∧ HandsOut K ws.sum (10^(divisionPrecision-p)) ws
instance (p K ws) : Decidable (AllocatesFairly p K ws) := by unfold AllocatesFairly; infer_instance

theorem sharesFairlyIff [Letters] (m : Money L) {ws : List Int64} {k : ℤ} (positive : 0 ≤ (scale reg m.currency).toInt)
    (few : places (scale reg m.currency) ≤ divisionPrecision)
    (whole : L.value m.amount = (k : ℚ)/10^places (scale reg m.currency)) (weights : ∀ w ∈ ws, 0 ≤ w.toInt)
    (some : 0 < (ws.map weight).sum) (fits : (ws.map weight).sum < 9223372036854775808) :
    SharesFairly reg m ws k ↔
      HandsOut k.natAbs (ws.map weight).sum (10^(divisionPrecision-places (scale reg m.currency))) (ws.map weight) := by
  have unit : 0 < 10^(divisionPrecision-places (scale reg m.currency)) := Nat.pow_pos (by decide)
  have balance := restShares (K := k.natAbs) (R := 10^(divisionPrecision-places (scale reg m.currency))) some
  have left := leftoverBound (K := k.natAbs) some (ws.map weight)
  have up := roundedUpBound (K := k.natAbs) unit some (ws.map weight)
  have sum : ((ws.map weight).map (fun w =>
      (share k.natAbs (ws.map weight).sum (10^(divisionPrecision-places (scale reg m.currency))) w : ℤ))).sum =
      (((ws.map weight).map (share k.natAbs (ws.map weight).sum
        (10^(divisionPrecision-places (scale reg m.currency))))).sum : ℕ) := by
    simp only [Nat.cast_list_sum,List.map_map,Function.comp_def]
  have naturals : ws.map (fun w => (weight w : ℤ)) = (ws.map weight).map (fun w : ℕ => (w : ℤ)) := by
    rw [List.map_map]
    rfl
  rcases lt_or_ge k 0 with neg | positive'
  · have cut := cutNegative neg (places (scale reg m.currency)) (ws.map weight)
    obtain ⟨parts,j,ok,currency,units,small⟩ := allocateUnits reg m positive few whole weights some fits cut
    rw [sharesIff reg ok currency units,naturals]
    obtain ⟨K,rfl⟩ := Int.exists_eq_neg_ofNat neg.le
    rw [Int.natAbs_neg,Int.natAbs_natCast] at *
    rw [← List.sum_neg,sum] at small ⊢
    rw [bumpNeg,fairNeg]
    exact fairIff unit some ((small (by omega)).trans (by omega)) (fun less => by rw [if_neg (by omega)])
      (fun more => by rw [if_pos (by omega),neg_neg])
  · have cut := cutPositive (not_lt.mpr positive') (places (scale reg m.currency)) (ws.map weight)
    obtain ⟨parts,j,ok,currency,units,small⟩ := allocateUnits reg m positive few whole weights some fits cut
    rw [sharesIff reg ok currency units,naturals]
    obtain ⟨K,rfl⟩ := Int.eq_ofNat_of_zero_le positive'
    rw [Int.natAbs_natCast] at *
    rw [sum] at small ⊢
    exact fairIff unit some (small (by omega)) (fun less => if_pos less) (fun more => if_neg (by omega))

theorem allocates [Letters] (m : Money L) {ws : List Int64} {k : ℤ} (positive : 0 ≤ (scale reg m.currency).toInt)
    (whole : L.value m.amount = (k : ℚ)/10^places (scale reg m.currency)) (weights : ∀ w ∈ ws, 0 ≤ w.toInt)
    (some : ∃ w ∈ ws, 0 < w.toInt) :
    (AllocatesFairly (places (scale reg m.currency)) k.natAbs (ws.map weight) → SharesFairly reg m ws k) ∧
    (places (scale reg m.currency) ≤ divisionPrecision → (ws.map weight).sum < 9223372036854775808 →
      SharesFairly reg m ws k → AllocatesFairly (places (scale reg m.currency)) k.natAbs (ws.map weight)) := by
  have total : 0 < (ws.map weight).sum := by
    obtain ⟨w,mem,more⟩ := some
    have one : weight w ≤ (ws.map weight).sum := List.single_le_sum (fun _ _ => Nat.zero_le _) _ (List.mem_map_of_mem mem)
    have : 0 < weight w := by
      unfold weight
      omega
    omega
  constructor
  · rintro ⟨few,fits,hands⟩
    exact (sharesFairlyIff reg m positive few whole weights total fits).mpr hands
  · intro few fits fair
    exact ⟨few,fits,(sharesFairlyIff reg m positive few whole weights total fits).mp fair⟩

def dime : Money exact := ⟨Exact.mk 10 (-2),"USD".toList⟩

theorem dimeShared : SharesFairly scales dime [1,1,1] 10 := by
  have one : (0 : ℤ) < Int64.toInt 1 := by decide
  have same {w : Int64} (mem : w ∈ [1,1,1]) : w = 1 := by simpa using mem
  exact (allocates scales dime (by decide)
    (by simp only [show places (scale scales dime.currency) = 2 by decide +kernel]; decide +kernel)
    (fun w mem => same mem ▸ one.le) ⟨1,List.mem_cons_self,one⟩).1 (by decide)

def cent : Money exact := ⟨Exact.mk 1 (-2),"USD".toList⟩

theorem centToNobody : exact.value cent.amount = 1/10^2 ∧ ¬ SharesFairly scales cent [0,1,1] 1 := by
  have amounts : (cent.allocate scales [0,1,1]).toOption.map (fun parts => parts.map (fun q => exact.value q.amount)) =
      some [1/10^2,0,0] := by decide +kernel
  have decimals : places (scale scales cent.currency) = 2 := by decide
  refine ⟨by decide +kernel,?_⟩
  rintro ⟨parts,us,ok,-,units,fair⟩
  rw [ok] at amounts
  have units' : InUnits (places (scale scales cent.currency)) parts [1,0,0] := by
    rw [decimals]
    exact (Option.some.inj amounts).trans (by norm_num)
  cases inUnitsUnique units units'
  have first := fair.fair
  simp only [List.map_cons,List.forall₂_cons] at first
  exact absurd (first.1.2 (by decide)) (by decide)

end DevkitCommon.Moneyx
