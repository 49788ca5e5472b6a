import DevkitCommon.Migrate.Values
import Mathlib.Tactic.DeriveFintype

/-! Whether a type that does not narrow keeps what a column holds. narrows compares sizes
within a family and lets every other change through: an unsigned integer made signed, a
decimal that gives digits before its point to those behind, and every change of family but that
of a text to a sized string. -/
namespace DevkitCommon.Migrate
open Words

def StringKind.room : StringKind → Nat → Room
  | .char,n => .padded n
  | .varchar,n => .chars n
  | .binary,n => .exactly n
  | .varbinary,n => .bytes n

def Extent.limit : Extent → Nat
  | .tiny => 255
  | .plain => 65535
  | .medium => 16777215
  | .long => 4294967295

def largeRoom (blob : Bool) (x : Extent) : Room := if blob then .bytes x.limit else .encoded x.limit

def ColType.content : ColType → Content
  | .int k isUnsigned => .numbers (k.span isUnsigned)
  | .decimal _ d isUnsigned => .numbers (d.span isUnsigned)
  | .string k n => .strings (k.room n.size)
  | .large blob x => .strings (largeRoom blob x)

def Narrower : ColType → ColType → Prop
  | .int k isUnsigned,.int l isUnsigned' => l.rank < k.rank ∨ isUnsigned = false ∧ isUnsigned' = true
  | .decimal _ d _,.decimal _ e _ => e.precision < d.precision ∨ e.scale < d.scale
  | .string _ n,.string _ m => n.written = true ∧ m.written = true ∧ m.size < n.size
  | .large _ x,.large _ y => y.rank < x.rank
  | .large _ _,.string _ _ => True
  | _,_ => False

theorem intBase (k : IntKind) : sized k.base = false ∧ intRank k.base = k.rank ∧ 0 < k.rank ∧ exact k.base = false ∧
    textRank k.base = 0 := by
  cases k <;> decide

theorem decimalBase (k : DecimalKind) : sized k.base = false ∧ intRank k.base = 0 ∧ exact k.base = true ∧
    textRank k.base = 0 := by
  cases k <;> decide

theorem stringBase (k : StringKind) : sized k.base = true ∧ intRank k.base = 0 ∧ exact k.base = false ∧
    textRank k.base = 0 := by
  cases k <;> decide

theorem largeBases (blob : Bool) (x : Extent) : sized (largeBase blob x) = false ∧ intRank (largeBase blob x) = 0 ∧
    exact (largeBase blob x) = false ∧ textRank (largeBase blob x) = x.rank ∧ 0 < x.rank := by
  cases blob <;> cases x <;> decide

theorem unsignedRest (isUnsigned : Bool) : contains (signRest isUnsigned) (chars "unsigned") = isUnsigned := by
  cases isUnsigned <;> decide

theorem narrowsText (h w : ColType) : narrows h.text w.text = true ↔ Narrower h w := by
  unfold narrows
  simp only [splitText]
  cases h with
  | int k u => cases w <;> simp [ColType.parts,intBase,decimalBase,stringBase,largeBases,unsignedRest,Narrower]
  | decimal k d u => cases w <;> simp [ColType.parts,intBase,decimalBase,stringBase,largeBases,Narrower]
  | string k n =>
    cases w with
    | string l m =>
      simp only [ColType.parts,stringBase,Narrower]
      cases n.written <;> cases m.written <;> simp
    | int l v => simp [ColType.parts,intBase,stringBase,Narrower]
    | decimal l d v => simp [ColType.parts,decimalBase,stringBase,Narrower]
    | large blob x => simp [ColType.parts,largeBases,stringBase,Narrower]
  | large blob x =>
    have some' (x : Extent) : 0 < x.rank := by cases x <;> decide
    cases w <;> simp [ColType.parts,intBase,decimalBase,stringBase,largeBases,some',Narrower]

section Numbers

theorem intDigits (k : IntKind) (u : Bool) : 10^((k.digits u)-1) ≤ (k.span u).high ∧ (k.span u).high+1 < 10^(k.digits u) ∧
    0 < k.digits u ∧ (k.span u).low = if u then 0 else -((k.span u).high+1) := by
  cases k <;> cases u <;> decide

theorem bitsRank (k l : IntKind) : (k.bits-1 ≤ l.bits-1 ↔ k.rank ≤ l.rank) ∧ (k.bits ≤ l.bits ↔ k.rank ≤ l.rank) ∧
    (k.bits ≤ l.bits-1 ↔ k.rank < l.rank) := by
  cases k <;> cases l <;> decide

theorem intWithin (k l : IntKind) (u v : Bool) : (k.span u).Within (l.span v) ↔
    if u = v then k.rank ≤ l.rank else u = true ∧ k.rank < l.rank := by
  have bounds : (k.span u).Within (l.span v) ↔ (l.span v).low ≤ (k.span u).low ∧ (k.span u).high ≤ (l.span v).high := by
    simp [Span.Within,IntKind.span]
  have power (a b : Nat) : (2 : Int)^a ≤ 2^b ↔ a ≤ b := pow_le_pow_iff_right₀ (by decide)
  obtain ⟨half,full,next⟩ := bitsRank k l
  have same := (power (k.bits-1) (l.bits-1)).trans half
  have whole := (power k.bits l.bits).trans full
  have into := (power k.bits (l.bits-1)).trans next
  have some' : (0 : Int) < 2^(k.bits-1) := pow_pos (by decide) _
  rw [bounds]
  cases u with
  | false =>
    cases v with
    | false =>
      simp only [IntKind.span,Bool.false_eq_true,if_false,if_true]
      omega
    | true =>
      simp only [IntKind.span,Bool.false_eq_true,if_false,if_true,false_and]
      exact iff_of_false (fun both => absurd both.1 (by omega)) id
  | true =>
    cases v with
    | false =>
      simp only [IntKind.span,Bool.false_eq_true,Bool.true_eq_false,if_false,if_true,true_and]
      have : (0 : Int) < 2^(l.bits-1) := pow_pos (by decide) _
      omega
    | true =>
      simp only [IntKind.span,if_true]
      omega

theorem digitsFit {m : Int} {d k q : Nat} (low : 10^(d-1) ≤ m) (high : m < 10^d) (pos : 0 < d) :
    m*10^k ≤ 10^q-1 ↔ d+k ≤ q := by
  constructor
  · intro small
    by_contra more
    have scaled : (10 : Int)^(d-1)*10^k ≤ m*10^k := mul_le_mul_of_nonneg_right low (pow_nonneg (by decide) k)
    have power : (10 : Int)^q ≤ 10^(d-1)*10^k := by
      rw [← pow_add]
      exact pow_le_pow_right₀ (by decide) (by omega)
    omega
  · intro small
    have scaled : m*10^k < 10^d*10^k := mul_lt_mul_of_pos_right high (pow_pos (by decide) k)
    have power : (10 : Int)^d*10^k ≤ 10^q := by
      rw [← pow_add]
      exact pow_le_pow_right₀ (by decide) small
    omega

theorem intDecimal (k : IntKind) (e : Digits) (u v : Bool) : (k.span u).Within (e.span v) ↔
    k.digits u + e.scale ≤ e.precision ∧ (v = true → u = true) := by
  obtain ⟨least,most,pos,low⟩ := intDigits k u
  have fit := digitsFit (k := e.scale) (q := e.precision) least (by omega) pos
  have scaled : (0 : Int) < 10^e.scale := pow_pos (by decide) _
  have bounds : (k.span u).Within (e.span v) ↔
      (if v then 0 else 1-10^e.precision : Int) ≤ (k.span u).low*10^e.scale ∧ k.digits u + e.scale ≤ e.precision := by
    rw [← fit]
    simp [Span.Within,IntKind.span,Digits.span]
  rw [bounds,low]
  cases u with
  | true =>
    have room := e.large
    cases v with
    | false =>
      simp only [Bool.false_eq_true,if_false,if_true,zero_mul,false_implies,and_true]
      exact and_iff_right (by omega)
    | true =>
      simp only [if_true,zero_mul,true_implies,and_true]
      exact and_iff_right (le_refl 0)
  | false =>
    cases v with
    | true =>
      simp only [Bool.false_eq_true,if_false,if_true,true_implies,and_false]
      have negative : -((k.span false).high+1)*10^e.scale < 0 :=
        mul_neg_of_neg_of_pos (by have := (k.span false).one; omega) scaled
      exact iff_of_false (fun both => absurd both.1 (not_le.mpr negative)) id
    | false =>
      simp only [Bool.false_eq_true,if_false,false_implies,and_true]
      refine and_iff_right_of_imp (fun small => ?_)
      have above := (digitsFit (k := e.scale) (q := e.precision) (show 10^(k.digits false-1) ≤ (k.span false).high+1 by omega)
        most pos).mpr small
      rw [neg_mul]
      omega

theorem decimalInt (d : Digits) (l : IntKind) (u v : Bool) : (d.span u).Within (l.span v) ↔
    d.scale = 0 ∧ d.precision < l.digits v ∧ (v = true → u = true) := by
  obtain ⟨least,most,pos,low⟩ := intDigits l v
  have room := d.large
  have fit : (10 : Int)^d.precision-1 ≤ (l.span v).high ↔ d.precision < l.digits v := by
    constructor
    · intro small
      by_contra more
      have power : (10 : Int)^(l.digits v) ≤ 10^d.precision := pow_le_pow_right₀ (by decide) (Nat.le_of_not_lt more)
      omega
    · intro small
      have power : (10 : Int)^d.precision ≤ 10^(l.digits v-1) := pow_le_pow_right₀ (by decide) (by omega)
      omega
  have bounds : (d.span u).Within (l.span v) ↔
      d.scale = 0 ∧ (l.span v).low ≤ (if u then 0 else 1-10^d.precision : Int) ∧ d.precision < l.digits v := by
    rw [← fit]
    simp [Span.Within,IntKind.span,Digits.span]
  rw [bounds,low]
  refine and_congr_right (fun _ => ?_)
  cases v with
  | false =>
    simp only [Bool.false_eq_true,if_false,false_implies,and_true]
    refine and_iff_right_of_imp (fun small => ?_)
    have := fit.mpr small
    split <;> omega
  | true =>
    cases u with
    | true => simp
    | false =>
      simp only [Bool.false_eq_true,if_false,if_true,true_implies,and_false]
      exact iff_of_false (fun both => absurd both.1 (by omega)) id

theorem decimalDecimal (d e : Digits) (u v : Bool) : (d.span u).Within (e.span v) ↔
    d.scale ≤ e.scale ∧ d.precision-d.scale ≤ e.precision-e.scale ∧ (v = true → u = true) := by
  have room := d.large
  have within := d.within
  have within' := e.within
  have positive := d.positive
  have power : (10 : Int)^d.precision = 10*10^(d.precision-1) := by
    rw [← pow_succ',Nat.sub_add_cancel positive]
  have unit : (0 : Int) < 10^(d.precision-1) := pow_pos (by decide) _
  have fit := digitsFit (m := 10^d.precision-1) (d := d.precision) (k := e.scale-d.scale) (q := e.precision) (by omega)
    (by omega) positive
  have scaled : (0 : Int) < 10^(e.scale-d.scale) := pow_pos (by decide) _
  refine and_congr_right (fun wide => ?_)
  have same : d.precision + (e.scale-d.scale) ≤ e.precision ↔ d.precision-d.scale ≤ e.precision-e.scale := by
    have below : d.scale ≤ e.scale := wide
    omega
  rw [← same,← fit]
  simp only [Digits.span]
  cases u with
  | true =>
    cases v with
    | false =>
      have large := e.large
      simp only [Bool.false_eq_true,if_false,if_true,zero_mul,false_implies,and_true]
      exact and_iff_right (by omega)
    | true =>
      simp only [if_true,zero_mul,true_implies,and_true]
      exact and_iff_right (le_refl 0)
  | false =>
    cases v with
    | true =>
      simp only [Bool.false_eq_true,if_false,if_true,true_implies,and_false]
      have negative : (1-10^d.precision : Int)*10^(e.scale-d.scale) < 0 := mul_neg_of_neg_of_pos (by omega) scaled
      exact iff_of_false (fun both => absurd both.1 (not_le.mpr negative)) id
    | false =>
      simp only [Bool.false_eq_true,if_false,false_implies,and_true]
      refine and_iff_right_of_imp (fun small => ?_)
      have mirrored : (1-10^d.precision : Int)*10^(e.scale-d.scale) = -((10^d.precision-1)*10^(e.scale-d.scale)) := by
        rw [← neg_mul,neg_sub]
      omega

end Numbers

section Large

theorem intShort (k : IntKind) (u : Bool) : (k.span u).widest ≤ 255 := by
  cases k <;> cases u <;> decide

theorem decimalShort (d : Digits) (u : Bool) : (d.span u).widest ≤ 255 := by
  have within := d.within
  have limit := d.limit
  obtain ⟨n,⟨-,low,high⟩,full⟩ := spanAttains (d.span u)
  have small : n.natAbs < 10^d.precision := by
    have bound : (if u then 0 else 1-10^d.precision : Int) ≤ n ∧ n ≤ 10^d.precision-1 := ⟨low,high⟩
    have room := d.large
    have : (n.natAbs : Int) < 10^d.precision := by
      split at bound <;> omega
    exact_mod_cast this
  have digits : (numeral (n.natAbs/10^d.scale)).length ≤ d.precision :=
    (Nat.length_toDigits_le_iff (by decide) d.positive).mpr (Nat.lt_of_le_of_lt (Nat.div_le_self _ _) small)
  have scale : (d.span u).scale = d.scale := rfl
  rw [← full,fixedLength,scale]
  split <;> split <;> omega

theorem largeFits {a : Span} (short : a.widest ≤ 255) (blob : Bool) (x : Extent) : a.Fits (largeRoom blob x) := by
  have limit : 255 ≤ x.limit := by cases x <;> decide
  cases blob <;> exact short.trans limit

theorem largeWithin (b c : Bool) (x y : Extent) :
    (y.rank < x.rank ∨ (largeRoom b x).Within (largeRoom c y)) ↔ y.rank < x.rank ∨ ¬ (b = true ∧ c = false) := by
  cases b <;> cases c <;> cases x <;> cases y <;> decide

end Large

def Sound : ColType → ColType → Prop
  | .int k u,.int l v => ¬ (u = true ∧ v = false ∧ k.rank = l.rank)
  | .int k u,.decimal _ e v => k.digits u + e.scale ≤ e.precision ∧ (v = true → u = true)
  | .decimal _ d u,.int l v => d.scale = 0 ∧ d.precision < l.digits v ∧ (v = true → u = true)
  | .decimal _ d u,.decimal _ e v => e.precision < d.precision ∨ e.scale < d.scale ∨
      d.precision-d.scale ≤ e.precision-e.scale ∧ (v = true → u = true)
  | .int k u,.string l m => (k.span u).Fits (l.room m.size)
  | .decimal _ d u,.string l m => (d.span u).Fits (l.room m.size)
  | .int _ _,.large _ _ | .decimal _ _ _,.large _ _ => True
  | .string _ _,.int _ _ | .string _ _,.decimal _ _ _ | .large _ _,.int _ _ | .large _ _,.decimal _ _ _ => False
  | .string k n,.string l m =>
      n.written = true ∧ m.written = true ∧ m.size < n.size ∨ (k.room n.size).Within (l.room m.size)
  | .string k n,.large b x => (k.room n.size).Within (largeRoom b x)
  | .large _ _,.string _ _ => True
  | .large b x,.large c y => y.rank < x.rank ∨ ¬ (b = true ∧ c = false)
instance (h w) : Decidable (Sound h w) := by cases h <;> cases w <;> unfold Sound <;> infer_instance

theorem soundIff (h w : ColType) : Sound h w ↔ Narrower h w ∨ h.content.Within w.content := by
  cases h with
  | int k u =>
    cases w with
    | int l v =>
      have within := intWithin k l u v
      simp only [Sound,Narrower,ColType.content,Content.Within,within]
      cases u <;> cases v <;> simp <;> omega
    | decimal l e v => simp only [Sound,Narrower,ColType.content,Content.Within,intDecimal,false_or]
    | string l m => simp only [Sound,Narrower,ColType.content,Content.Within,false_or]
    | large b x => exact iff_of_true trivial (.inr (largeFits (intShort k u) b x))
  | decimal k d u =>
    cases w with
    | int l v => simp only [Sound,Narrower,ColType.content,Content.Within,decimalInt,false_or]
    | decimal l e v =>
      simp only [Sound,Narrower,ColType.content,Content.Within,decimalDecimal]
      constructor
      · rintro (small | small | fit)
        · exact .inl (.inl small)
        · exact .inl (.inr small)
        · exact (Nat.lt_or_ge e.scale d.scale).elim (fun small => .inl (.inr small)) (fun wide => .inr ⟨wide,fit⟩)
      · rintro ((small | small) | fit)
        · exact .inl small
        · exact .inr (.inl small)
        · exact .inr (.inr fit.2)
    | string l m => simp only [Sound,Narrower,ColType.content,Content.Within,false_or]
    | large b x => exact iff_of_true trivial (.inr (largeFits (decimalShort d u) b x))
  | string k n => cases w <;> simp only [Sound,Narrower,ColType.content,Content.Within,false_or]
  | large b x =>
    cases w with
    | int l v => simp only [Sound,Narrower,ColType.content,Content.Within,false_or]
    | decimal l e v => simp only [Sound,Narrower,ColType.content,Content.Within,false_or]
    | string l m => exact iff_of_true trivial (.inl trivial)
    | large c y => exact (largeWithin b c x y).symm

theorem narrowsSound (h w : ColType) :
    (narrows h.text w.text = false → ∀ v, h.content.Holds v → Representable w.content v) ↔ Sound h w := by
  rw [contentWithin,soundIff,← narrowsText]
  cases narrows h.text w.text <;> simp

theorem unsignedLost : ¬ ∀ h w : ColType, narrows h.text w.text = false → ∀ v, h.content.Holds v → Representable w.content v := by
  intro all
  obtain ⟨v,holds,same⟩ := all (.int .int true) (.int .int false) (by decide) (.number 4294967295 0) ⟨rfl,by decide,by decide⟩
  cases v with
  | number m s =>
    obtain ⟨rfl,-,small⟩ : s = 0 ∧ -2147483648 ≤ m ∧ m ≤ 2147483647 := holds
    have whole : (4294967295 : Int) = m := by simpa [Same] using same
    omega
  | text t => exact holds
  | bytes b => exact holds

end DevkitCommon.Migrate
