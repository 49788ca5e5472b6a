import Mathlib.Data.Rat.Floor
import Mathlib.Tactic.FieldSimp
import Mathlib.Tactic.Linarith
import Mathlib.Tactic.Ring

/-! Rounding a rational to an integer, and to so many decimals: towards zero, away from it, to
the nearest with halves away from zero, and to the nearest with halves to the even one. -/
namespace DevkitCommon.Rounding

def down (x : ℚ) : ℤ := if 0 ≤ x then ⌊x⌋ else -⌊-x⌋

def up (x : ℚ) : ℤ := if 0 ≤ x then ⌈x⌉ else -⌈-x⌉

def halfUp (x : ℚ) : ℤ := if 0 ≤ x then ⌊x+1/2⌋ else -⌊-x+1/2⌋

def halfEven (x : ℚ) : ℤ :=
  let low := ⌊x⌋
  if x-low < 1/2 ∨ x-low = 1/2 ∧ low % 2 = 0 then low else low+1

def atPlaces (r : ℚ → ℤ) (places : ℕ) (x : ℚ) : ℚ := r (x*10^places)/10^places

def Multiple (places : ℕ) (x : ℚ) : Prop := ∃ k : ℤ, x = k/10^places

theorem downInt (k : ℤ) : down k = k := by
  unfold down
  split
  · exact Int.floor_intCast k
  · rw [← Int.cast_neg,Int.floor_intCast,neg_neg]

theorem halfUpInt (k : ℤ) : halfUp k = k := by
  have near (n : ℤ) : ⌊(n : ℚ)+1/2⌋ = n := by
    rw [Int.floor_eq_iff]
    constructor <;> linarith
  unfold halfUp
  split
  · exact near k
  · rw [← Int.cast_neg,near,neg_neg]

theorem downNeg (x : ℚ) : down (-x) = -down x := by
  unfold down
  rcases lt_trichotomy x 0 with neg | rfl | pos
  · rw [if_pos (by linarith),if_neg (by linarith),neg_neg]
  · simp
  · rw [if_neg (by linarith),if_pos pos.le,neg_neg]

theorem halfUpNeg (x : ℚ) : halfUp (-x) = -halfUp x := by
  unfold halfUp
  rcases lt_trichotomy x 0 with neg | rfl | pos
  · rw [if_pos (by linarith),if_neg (by linarith),neg_neg]
  · norm_num
  · rw [if_neg (by linarith),if_pos pos.le,neg_neg]

theorem downDiv (a b : ℕ) : down ((a : ℚ)/b) = (a/b : ℕ) := by
  unfold down
  rw [if_pos (by positivity)]
  exact Rat.floor_natCast_div_natCast a b

theorem halfUpDiv (a : ℕ) {b : ℕ} (pos : 0 < b) : halfUp ((a : ℚ)/b) = ((2*a+b)/(2*b) : ℕ) := by
  have two : (a : ℚ)/b+1/2 = ((2*a+b : ℕ) : ℚ)/(2*b : ℕ) := by
    have : (b : ℚ) ≠ 0 := by positivity
    push_cast
    field_simp
  unfold halfUp
  rw [if_pos (by positivity),two]
  exact Rat.floor_natCast_div_natCast _ _

theorem atPlacesMultiple (r : ℚ → ℤ) (places : ℕ) (x : ℚ) : Multiple places (atPlaces r places x) :=
  ⟨r (x*10^places),rfl⟩

theorem atPlacesSame {r : ℚ → ℤ} (whole : ∀ k : ℤ, r k = k) {places : ℕ} {x : ℚ} (multiple : Multiple places x) :
    atPlaces r places x = x := by
  obtain ⟨k,rfl⟩ := multiple
  rw [atPlaces,div_mul_cancel₀ _ (by positivity),whole]

theorem atPlacesSameIff {r : ℚ → ℤ} (whole : ∀ k : ℤ, r k = k) {places : ℕ} {x : ℚ} :
    atPlaces r places x = x ↔ Multiple places x :=
  ⟨fun same => same ▸ atPlacesMultiple r places x,atPlacesSame whole⟩

theorem multipleNeg {places : ℕ} {x : ℚ} (multiple : Multiple places x) : Multiple places (-x) := by
  obtain ⟨k,rfl⟩ := multiple
  exact ⟨-k,by push_cast; ring⟩

theorem multipleAdd {places : ℕ} {x y : ℚ} (left : Multiple places x) (right : Multiple places y) :
    Multiple places (x+y) := by
  obtain ⟨j,rfl⟩ := left
  obtain ⟨k,rfl⟩ := right
  exact ⟨j+k,by push_cast; ring⟩

theorem multipleAbs {places : ℕ} {x : ℚ} (multiple : Multiple places x) : Multiple places |x| := by
  rcases abs_choice x with same | opposite
  · rwa [same]
  · rw [opposite]
    exact multipleNeg multiple

end DevkitCommon.Rounding
