import DevkitCommon.Moneyx.Shares

/-! What the amounts of a service can be. Whatever is computed stays a multiple of the unit, and
is read back from its text as it was, but for an amount of zero in a malformed currency. -/
namespace DevkitCommon.Moneyx
open Rounding Words

inductive Calc (L : Decimals) where
  | fromDecimal (d : L.Dec) (currency : Text) (mode : RoundingMode)
  | parse (amount currency : Text)
  | zero (currency : Text)
  | of (m : Option (Text × Text))
  | unmarshalJSON (b : Members)
  | neg (e : Calc L)
  | abs (e : Calc L)
  | add (e f : Calc L)
  | sub (e f : Calc L)
  | mul (e : Calc L) (rate : L.Dec) (mode : RoundingMode)
  | split (e : Calc L) (n : Int64) (i : ℕ)
  | allocate (e : Calc L) (weights : List Int64) (i : ℕ)

variable {L : Decimals} (reg : Registry)

def Calc.eval [Letters] : Calc L → Option (Money L)
  | fromDecimal d currency mode => (Moneyx.fromDecimal reg d currency mode).toOption
  | parse amount currency => (Moneyx.parse reg amount currency).toOption
  | zero currency => some (Moneyx.zero currency)
  | of m => (Moneyx.of reg m).toOption
  | unmarshalJSON b => (Moneyx.unmarshalJSON reg b).toOption
  | neg e => e.eval.map Money.neg
  | abs e => e.eval.map Money.abs
  | add e f => do (← e.eval).add (← f.eval) |>.toOption
  | sub e f => do (← e.eval).sub (← f.eval) |>.toOption
  | mul e rate mode => e.eval.map (fun m => m.mul reg rate mode)
  | split e n i => do (← ((← e.eval).split reg n).toOption)[i]?
  | allocate e weights i => do (← ((← e.eval).allocate reg weights).toOption)[i]?

def Calc.Coded [Letters] : Calc L → Prop
  | zero currency => ∃ c, normCurrency currency = .ok c
  | neg e | abs e | mul e _ _ | split e _ _ | allocate e _ _ => e.Coded
  | add e f | sub e f => e.Coded ∧ f.Coded
  | _ => True

def RoundTrips [Letters] (m : Money L) : Prop :=
  (∃ q : Money L, of reg (some (m.parts reg)) = .ok q ∧ q.equal m = true) ∧
  ∃ q : Money L, unmarshalJSON reg (m.marshalJSON reg) = .ok q ∧ q.equal m = true

section Currency
variable [Letters] {c x : Text}

theorem normUpper (ok : normCurrency x = .ok c) : c = toUpper (trimSpace x) ∧ 3 ≤ byteLength c := by
  simp only [normCurrency] at ok
  split at ok <;> try contradiction
  rename_i fits
  cases Except.ok.inj ok
  exact ⟨rfl,by omega⟩

theorem normTwice (ok : normCurrency x = .ok c) : normCurrency c = .ok c := by
  obtain ⟨same,-⟩ := normUpper ok
  have upper : toUpper (trimSpace c) = c := by
    rw [same,trimSpace,toUpper,toUpper,trimMap spaceUpper,trimSpace,trimTwice,List.map_map]
    exact List.map_congr_left (fun a _ => upperTwice a)
  have kept : normCurrency c = normCurrency x := by simp only [normCurrency,upper,← same]
  rw [kept,ok]

theorem normEmpty : ∀ c, normCurrency [] ≠ .ok c := by
  intro c ok
  obtain ⟨same,long⟩ := normUpper ok
  have none : byteLength (toUpper (trimSpace [])) = 0 := rfl
  rw [same,none] at long
  exact absurd long (by decide)

end Currency

section Amounts
variable {s : Int32} {d e : L.Dec}

def OfUnits (s : Int32) (d : L.Dec) : Prop := Multiple (places s) (L.value d)

theorem ofUnits {x : ℚ} (same : L.value d = x) (multiple : Multiple (places s) x) : OfUnits s d := by
  rw [OfUnits,same]
  exact multiple

theorem roundUnits (positive : 0 ≤ s.toInt) (d : L.Dec) (mode : RoundingMode) : OfUnits s (round d s mode) := by
  cases mode with
  | roundHalfUp => exact ofUnits (L.valueRound d s positive) (atPlacesMultiple _ _ _)
  | roundDown => exact ofUnits (L.valueRoundDown d s positive) (atPlacesMultiple _ _ _)
  | roundUp => exact ofUnits (L.valueRoundUp d s positive) (atPlacesMultiple _ _ _)
  | roundHalfEven => exact ofUnits (L.valueRoundBank d s positive) (atPlacesMultiple _ _ _)

theorem truncateUnits (positive : 0 ≤ s.toInt) (d : L.Dec) : OfUnits s (L.truncate d s) :=
  ofUnits (L.valueTruncate d s positive) (atPlacesMultiple _ _ _)

theorem negUnits (units : OfUnits s d) : OfUnits s (L.neg d) := ofUnits (L.valueNeg d) (multipleNeg units)

theorem addUnits (left : OfUnits s d) (right : OfUnits s e) : OfUnits s (L.add d e) :=
  ofUnits (L.valueAdd d e) (multipleAdd left right)

theorem oneUnit (positive : 0 ≤ s.toInt) : OfUnits s (L.new 1 (-s)) :=
  ⟨1,by rw [unitValue positive,Int.cast_one]⟩

theorem handOutRestParts (positive : 0 ≤ s.toInt) (rem : L.Dec) {out : List (Money L)}
    (all : ∀ m ∈ out, OfUnits s m.amount) : ∀ m ∈ handOutRest (L.new 1 (-s)) rem out, OfUnits s m.amount := by
  have step : OfUnits s (if L.isNegative rem then L.neg (L.new 1 (-s)) else L.new 1 (-s)) := by
    split
    · exact negUnits (oneUnit positive)
    · exact oneUnit positive
  exact handOutKeeps (fun m units => addUnits units step) _ all

end Amounts

section Steps
variable {m o q : Money L} {c : Text}

theorem fromDecimalMoney [Letters] {d : L.Dec} {mode : RoundingMode} (ok : fromDecimal reg d c mode = .ok m) :
    normCurrency c = .ok m.currency ∧ (0 ≤ (scale reg m.currency).toInt → OfUnits (scale reg m.currency) m.amount) := by
  unfold fromDecimal at ok
  cases norm : normCurrency c with
  | error e => exact absurd (norm ▸ ok) (by simp [bind,Except.bind])
  | ok x =>
    simp only [norm,bind,Except.bind,Except.ok.injEq] at ok
    subst ok
    exact ⟨rfl,fun positive => roundUnits positive d mode⟩

theorem parseRead [Letters] {x : Text} (amount : Text) {d : L.Dec} (norm : normCurrency c = .ok x)
    (read : L.newFromString (trimSpace amount) = some d) : parse reg amount c =
      if scale reg x < -L.exponent d ∧ L.equal d (L.truncate d (scale reg x)) = false then
        .error (.scale amount (scale reg x) x)
      else .ok ⟨L.truncate d (scale reg x),x⟩ := by
  simp only [parse,norm,read,bind,Except.bind]

theorem parseMoney [Letters] (amount : Text) (ok : parse reg amount c = .ok m) :
    normCurrency c = .ok m.currency ∧ (0 ≤ (scale reg m.currency).toInt → OfUnits (scale reg m.currency) m.amount) := by
  cases norm : normCurrency c with
  | error e => simp [parse,norm,bind,Except.bind] at ok
  | ok x =>
    cases read : L.newFromString (trimSpace amount) with
    | none => simp [parse,norm,read,bind,Except.bind] at ok
    | some d =>
      rw [parseRead reg _ norm read] at ok
      split at ok <;> try contradiction
      cases Except.ok.inj ok
      exact ⟨rfl,fun positive => truncateUnits positive d⟩

theorem addMoney (ok : m.add o = .ok q) : m.currency = o.currency ∧ q = ⟨L.add m.amount o.amount,m.currency⟩ := by
  unfold Money.add Money.same at ok
  split at ok
  · exact absurd ok (by simp [bind,Except.bind])
  · rename_i same
    simp only [bind,Except.bind,Except.ok.injEq] at ok
    exact ⟨not_not.mp same,ok.symm⟩

theorem subMoney (ok : m.sub o = .ok q) : m.currency = o.currency ∧ q = ⟨L.sub m.amount o.amount,m.currency⟩ := by
  unfold Money.sub Money.same at ok
  split at ok
  · exact absurd ok (by simp [bind,Except.bind])
  · rename_i same
    simp only [bind,Except.bind,Except.ok.injEq] at ok
    exact ⟨not_not.mp same,ok.symm⟩

theorem handOutRestCurrency {unit rem : L.Dec} {out : List (Money L)} (all : ∀ m ∈ out, m.currency = c) :
    ∀ m ∈ handOutRest unit rem out, m.currency = c :=
  handOutKeeps (fun _ same => same) _ all

theorem splitMoney [Letters] {n : Int64} {parts : List (Money L)} (ok : m.split reg n = .ok parts) (mem : q ∈ parts) :
    q.currency = m.currency ∧ (0 ≤ (scale reg m.currency).toInt → OfUnits (scale reg m.currency) q.amount) := by
  unfold Money.split at ok
  split at ok <;> try contradiction
  cases Except.ok.inj ok
  constructor
  · exact handOutRestCurrency (fun q mem => by rw [List.eq_of_mem_replicate mem]) q mem
  · intro positive
    refine handOutRestParts positive _ (fun q mem => ?_) q mem
    rw [List.eq_of_mem_replicate mem]
    exact truncateUnits positive _

theorem allocateMoney [Letters] {ws : List Int64} {parts : List (Money L)} (ok : m.allocate reg ws = .ok parts) (mem : q ∈ parts) :
    q.currency = m.currency ∧ (0 ≤ (scale reg m.currency).toInt → OfUnits (scale reg m.currency) q.amount) := by
  unfold Money.allocate at ok
  cases sum : total 0 ws with
  | error e => simp [sum,bind,Except.bind] at ok
  | ok t =>
    simp only [sum,bind,Except.bind] at ok
    split at ok <;> try contradiction
    cases Except.ok.inj ok
    constructor
    · refine handOutRestCurrency (fun q mem => ?_) q mem
      obtain ⟨w,-,rfl⟩ := List.mem_map.mp mem
      rfl
    · intro positive
      refine handOutRestParts positive _ (fun q mem => ?_) q mem
      obtain ⟨w,-,rfl⟩ := List.mem_map.mp mem
      exact truncateUnits positive _

theorem okSome {α : Type} {x : Except Err α} {a : α} (ok : x.toOption = some a) : x = .ok a := by
  cases x with
  | error e => exact absurd ok (by simp [Except.toOption])
  | ok b => exact congrArg Except.ok (Option.some.inj ok)

end Steps

structure Sound [Letters] (e : Calc L) (m : Money L) : Prop where
  units : 0 ≤ (scale reg m.currency).toInt → OfUnits (scale reg m.currency) m.amount
  coded : e.Coded → normCurrency m.currency = .ok m.currency
  empty : ¬ e.Coded → m.currency = []

theorem checkedSound [Letters] {e : Calc L} {m : Money L} {c : Text} (coded : e.Coded)
    (made : normCurrency c = .ok m.currency ∧
      (0 ≤ (scale reg m.currency).toInt → OfUnits (scale reg m.currency) m.amount)) : Sound reg e m :=
  ⟨made.2,fun _ => normTwice made.1,fun not => absurd coded not⟩

theorem bothSound [Letters] {e f g : Calc L} {m o q : Money L} (same : m.currency = o.currency) (left : Sound reg e m)
    (right : Sound reg f o) (coded : g.Coded ↔ e.Coded ∧ f.Coded) (currency : q.currency = m.currency)
    (units : OfUnits (scale reg m.currency) m.amount → OfUnits (scale reg m.currency) o.amount →
      OfUnits (scale reg m.currency) q.amount) : Sound reg g q := by
  constructor
  · rw [currency]
    exact fun positive => units (left.units positive) (same ▸ right.units (same ▸ positive))
  · rw [currency]
    exact fun both => left.coded (coded.mp both).1
  · rw [currency]
    intro not
    by_cases one : e.Coded
    · have other : ¬ f.Coded := fun other => not (coded.mpr ⟨one,other⟩)
      exact same.trans (right.empty other)
    · exact left.empty one

theorem evalSound [Letters] {e : Calc L} {m : Money L} (ok : e.eval reg = some m) : Sound reg e m := by
  induction e generalizing m with
  | fromDecimal d c mode => exact checkedSound reg trivial (fromDecimalMoney reg (okSome ok))
  | parse amount c => exact checkedSound reg trivial (parseMoney reg _ (okSome ok))
  | zero c =>
    cases Option.some.inj ok
    have units (s : Int32) : OfUnits s (L.zero) := ofUnits L.valueZero ⟨0,by simp⟩
    cases norm : normCurrency c with
    | ok x =>
      have made : zero c = (⟨L.zero,x⟩ : Money L) := by simp only [zero,norm]
      rw [made]
      exact checkedSound reg ⟨x,norm⟩ ⟨norm,fun _ => units _⟩
    | error err =>
      have made : zero c = (⟨L.zero,[]⟩ : Money L) := by simp only [zero,norm]
      rw [made]
      refine ⟨fun _ => units _,fun ⟨x,other⟩ => ?_,fun _ => rfl⟩
      cases norm.symm.trans other
  | of x =>
    cases x with
    | none => exact absurd (okSome ok) (by simp [of])
    | some both => exact checkedSound reg trivial (parseMoney reg _ (okSome ok))
  | unmarshalJSON b =>
    have read := okSome ok
    unfold unmarshalJSON at read
    cases members : readMembers [] [] b with
    | error err => simp [members,bind,Except.bind] at read
    | ok both =>
      simp only [members,bind,Except.bind] at read
      exact checkedSound reg trivial (parseMoney reg _ read)
  | neg e ih =>
    simp only [Calc.eval,Option.map_eq_some_iff] at ok
    obtain ⟨m,ok,rfl⟩ := ok
    have sound := ih ok
    exact ⟨fun positive => negUnits (sound.units positive),sound.coded,sound.empty⟩
  | abs e ih =>
    simp only [Calc.eval,Option.map_eq_some_iff] at ok
    obtain ⟨m,ok,rfl⟩ := ok
    have sound := ih ok
    exact ⟨fun positive => ofUnits (L.valueAbs _) (multipleAbs (sound.units positive)),sound.coded,sound.empty⟩
  | add e f left right =>
    simp only [Calc.eval,bind,Option.bind_eq_some_iff] at ok
    obtain ⟨m,first,o,second,sum⟩ := ok
    obtain ⟨same,rfl⟩ := addMoney (okSome sum)
    exact bothSound reg same (left first) (right second) Iff.rfl rfl addUnits
  | sub e f left right =>
    simp only [Calc.eval,bind,Option.bind_eq_some_iff] at ok
    obtain ⟨m,first,o,second,rest⟩ := ok
    obtain ⟨same,rfl⟩ := subMoney (okSome rest)
    refine bothSound reg same (left first) (right second) Iff.rfl rfl (fun plus minus => ?_)
    exact ofUnits (L.valueSub _ _) (sub_eq_add_neg (L.value m.amount) _ ▸ multipleAdd plus (multipleNeg minus))
  | mul e rate mode ih =>
    simp only [Calc.eval,Option.map_eq_some_iff] at ok
    obtain ⟨m,ok,rfl⟩ := ok
    have sound := ih ok
    exact ⟨fun positive => roundUnits positive _ mode,sound.coded,sound.empty⟩
  | split e n i ih =>
    simp only [Calc.eval,bind,Option.bind_eq_some_iff] at ok
    obtain ⟨whole,first,parts,shared,part⟩ := ok
    obtain ⟨currency,units⟩ := splitMoney reg (okSome shared) (List.mem_of_getElem? part)
    have sound := ih first
    exact ⟨currency ▸ units,currency ▸ sound.coded,currency ▸ sound.empty⟩
  | allocate e ws i ih =>
    simp only [Calc.eval,bind,Option.bind_eq_some_iff] at ok
    obtain ⟨whole,first,parts,shared,part⟩ := ok
    obtain ⟨currency,units⟩ := allocateMoney reg (okSome shared) (List.mem_of_getElem? part)
    have sound := ih first
    exact ⟨currency ▸ units,currency ▸ sound.coded,currency ▸ sound.empty⟩

section Texts

theorem plainASCII {c : Char} (is : plain c = true) : c.toNat < 128 := by
  simp only [plain,Char.isDigit,Bool.or_eq_true,Bool.and_eq_true,decide_eq_true_eq,beq_iff_eq] at is
  rcases is with (⟨-,high⟩ | rfl) | rfl
  · have := UInt32.le_iff_toNat_le.mp high
    have nine : ('9'.val).toNat = 57 := by decide
    have same : c.val.toNat = c.toNat := rfl
    omega
  · decide
  · decide

theorem plainKept {c : Char} (is : plain c = true) : space c = false ∧ (c == '"') = false ∧ JSON.escape c = [c] :=
  forASCII (p := fun c => plain c = true → space c = false ∧ (c == '"') = false ∧ JSON.escape c = [c])
    (by decide) (plainASCII is) is

variable {m : Money L}

theorem stringRead [Letters] (positive : 0 ≤ (scale reg m.currency).toInt) (units : OfUnits (scale reg m.currency) m.amount)
    (coded : normCurrency m.currency = .ok m.currency) :
    ∃ q : Money L, parse reg (m.string reg) m.currency = .ok q ∧ q.equal m = true := by
  obtain ⟨d,read,value⟩ := L.fixedReads m.amount (scale reg m.currency) positive
  rw [atPlacesSame halfUpInt units] at value
  have trimmed : trimSpace (m.string reg) = L.stringFixed m.amount (scale reg m.currency) :=
    trimPlain (fun c mem => (plainKept (L.fixedPlain _ _ positive c mem)).1)
  have same : L.value (L.truncate d (scale reg m.currency)) = L.value m.amount := by
    rw [L.valueTruncate _ _ positive,value,atPlacesSame downInt units]
  have equal : L.equal d (L.truncate d (scale reg m.currency)) = true := (L.equalIff _ _).mpr (value.trans same.symm)
  have parsed := parseRead reg (m.string reg) coded (trimmed ▸ read)
  rw [equal,if_neg (by simp)] at parsed
  exact ⟨_,parsed,by simp [Money.equal,(L.equalIff _ _).mpr same]⟩

theorem marshalRead [Letters] (positive : 0 ≤ (scale reg m.currency).toInt) :
    unmarshalJSON reg (m.marshalJSON reg) = (parse reg (m.string reg) m.currency : Except Err (Money L)) := by
  have written : (m.string reg).flatMap JSON.escape = m.string reg := by
    have each : ∀ c ∈ m.string reg, JSON.escape c = [c] :=
      fun c mem => (plainKept (L.fixedPlain _ _ positive c mem)).2.2
    rw [List.flatMap_congr each,List.flatMap_singleton']
  have amount : trim (· == '"') (quoted (m.string reg)) = m.string reg := by
    rw [quoted,written]
    exact trimBetween rfl (fun c mem => (plainKept (L.fixedPlain _ _ positive c mem)).2.1)
  have currency : unquoted (quoted m.currency) = some m.currency := by
    rw [quoted,unquoted,List.dropLast_concat,JSON.unescapeText]
  have string : quoted m.currency ≠ null := fun same => absurd (List.cons.inj same).1 (by decide)
  have members : readMembers [] [] (m.marshalJSON reg) = .ok (quoted (m.string reg),m.currency) := by
    have first : equalFold "amount".toList "amount".toList = true := by decide
    have second : equalFold "currency".toList "amount".toList = false := by decide
    have third : equalFold "currency".toList "currency".toList = true := by decide
    simp only [Money.marshalJSON,readMembers,first,second,third,string,currency,if_true,if_false,Bool.false_eq_true]
  simp only [unmarshalJSON,members,bind,Except.bind,amount]

theorem roundTripsCoded [Letters] (positive : 0 ≤ (scale reg m.currency).toInt) (units : OfUnits (scale reg m.currency) m.amount)
    (coded : normCurrency m.currency = .ok m.currency) : RoundTrips reg m := by
  have read := stringRead reg positive units coded
  exact ⟨read,marshalRead reg positive ▸ read⟩

theorem emptyLost [Letters] (empty : m.currency = []) : ¬ RoundTrips reg m := by
  rintro ⟨⟨q,ok,-⟩,-⟩
  have norm := (parseMoney reg (c := m.currency) (m.string reg) ok).1
  rw [empty] at norm
  exact normEmpty _ norm

theorem equalTruncate {s : Int32} (positive : 0 ≤ s.toInt) (d : L.Dec) :
    L.equal d (L.truncate d s) = true ↔ OfUnits s d := by
  rw [L.equalIff,L.valueTruncate _ _ positive,eq_comm,OfUnits]
  exact atPlacesSameIff downInt

theorem fewDecimals {s : Int32} {d : L.Dec} {v : ℤ} (value : L.value d = v*(10 : ℚ)^(L.exponent d).toInt)
    (few : -(L.exponent d).toInt ≤ s.toInt) (positive : 0 ≤ s.toInt) : OfUnits s d := by
  refine ⟨v*10^((L.exponent d).toInt+s.toInt).toNat,?_⟩
  have split : (10 : ℚ)^(L.exponent d).toInt*10^places s = 10^((L.exponent d).toInt+s.toInt).toNat := by
    have whole : ((places s : ℕ) : ℤ) = s.toInt := Int.toNat_of_nonneg positive
    rw [← zpow_natCast _ (places s),← zpow_add₀ (by norm_num),whole,← zpow_natCast,Int.toNat_of_nonneg (by omega)]
  rw [value,eq_div_iff (by positivity),mul_assoc,split]
  push_cast
  rfl

theorem parseAccepts [Letters] {amount c x : Text} {d : L.Dec} (norm : normCurrency c = .ok x)
    (positive : 0 ≤ (scale reg x).toInt) (read : L.newFromString (trimSpace amount) = some d) :
    ((∃ m : Money L, parse reg amount c = .ok m) ↔ OfUnits (scale reg x) d) ↔
      L.exponent d ≠ Int32.minValue ∨ OfUnits (scale reg x) d := by
  have parsed := parseRead reg _ norm read
  have accepts : (∃ m : Money L, parse reg amount c = .ok m) ↔
      ¬ (scale reg x < -L.exponent d ∧ ¬ OfUnits (scale reg x) d) := by
    rw [parsed,← equalTruncate positive,Bool.not_eq_true]
    split
    · rename_i refused
      simp [refused]
    · rename_i accepted
      exact ⟨fun _ => accepted,fun _ => ⟨_,rfl⟩⟩
  rw [accepts]
  by_cases least : L.exponent d = Int32.minValue
  · have never : ¬ scale reg x < -L.exponent d := by
      rw [least,Int32.lt_iff_toInt_lt]
      have : (-Int32.minValue).toInt = -2147483648 := by decide
      omega
    have accepted : ¬ (scale reg x < -L.exponent d ∧ ¬ OfUnits (scale reg x) d) := fun both => never both.1
    constructor
    · exact fun both => .inr (both.mp accepted)
    · rintro (other | units)
      · exact absurd least other
      · exact ⟨fun _ => units,fun _ => accepted⟩
  · have flip : (-L.exponent d).toInt = -(L.exponent d).toInt := by
      have low := (L.exponent d).le_toInt
      have high := (L.exponent d).toInt_lt
      have other : (L.exponent d).toInt ≠ -2147483648 := fun same => least (Int32.toInt_inj.mp (same.trans (by decide)))
      rw [Int32.toInt_neg,Int.bmod_eq_of_le] <;> omega
    by_cases more : scale reg x < -L.exponent d
    · simp [more,least]
    · obtain ⟨v,value⟩ := L.readExponent _ _ read
      have units : OfUnits (scale reg x) d := by
        refine fewDecimals value ?_ positive
        rw [Int32.lt_iff_toInt_lt,flip] at more
        omega
      simp [units]

end Texts

theorem represents [Letters] (L : Decimals) (reg : Registry) :
    (∀ (e : Calc L) (m : Money L), e.eval reg = some m → 0 ≤ (scale reg m.currency).toInt →
      OfUnits (scale reg m.currency) m.amount ∧ (RoundTrips reg m ↔ e.Coded)) ∧
    ∀ (amount c x : Text) (d : L.Dec), normCurrency c = .ok x → 0 ≤ (scale reg x).toInt →
      L.newFromString (trimSpace amount) = some d →
      (((∃ m : Money L, parse reg amount c = .ok m) ↔ OfUnits (scale reg x) d) ↔
        L.exponent d ≠ Int32.minValue ∨ OfUnits (scale reg x) d) := by
  constructor
  · intro e m ok positive
    have sound := evalSound reg ok
    refine ⟨sound.units positive,fun trips => ?_,fun coded => ?_⟩
    · by_contra not
      exact emptyLost reg (sound.empty not) trips
    · exact roundTripsCoded reg positive (sound.units positive) (sound.coded coded)
  · exact fun amount c x d norm positive read => parseAccepts reg norm positive read

def sum : Calc exact := .add (.parse "0.5".toList "usd".toList) (.parse " 25e-2".toList "USD".toList)

theorem sumRoundTrips : (sum.eval scales).map (fun m => (m.currency,m.string scales)) =
      some ("USD".toList,"0.75".toList) ∧ ∀ m, sum.eval scales = some m → RoundTrips scales m := by
  have usd : (sum.eval scales).map Money.currency = some "USD".toList := by decide
  refine ⟨by decide +kernel,fun m ok => ?_⟩
  rw [ok] at usd
  have two : 0 ≤ (scale scales m.currency).toInt := by
    rw [Option.some.inj usd]
    decide
  exact (((represents exact scales).1 sum m ok two).2).mpr ⟨trivial,trivial⟩

theorem tinyNoMultiple {p N : ℕ} (more : p < N) : ¬ Multiple p ((1 : ℤ)*(10 : ℚ)^(-(N : ℤ))) := by
  rintro ⟨k,same⟩
  have whole : ((10^p : ℕ) : ℤ) = k*(10^N : ℕ) := by
    have up : (10 : ℚ)^p = k*10^N := by
      rw [zpow_neg,zpow_natCast,Int.cast_one] at same
      field_simp at same
      linarith
    exact_mod_cast up
  have less : 10^p < 10^N := Nat.pow_lt_pow_right (by decide) more
  have some : 0 < k := by
    by_contra none
    have : k*(10^N : ℕ) ≤ 0 := mul_nonpos_of_nonpos_of_nonneg (not_lt.mp none) (Int.natCast_nonneg _)
    have : 0 < 10^p := Nat.pow_pos (by decide)
    omega
  have : ((10^N : ℕ) : ℤ) ≤ k*(10^N : ℕ) := le_mul_of_one_le_left (Int.natCast_nonneg _) some
  omega

def chip : Registry := registerCurrency scales "AB".toList 0

def tiny : Text := "1e-2147483648".toList

theorem notRepresented : (∃ m : Money exact, (Calc.zero "AB".toList).eval chip = some m ∧ ¬ RoundTrips chip m) ∧
    ∃ m : Money exact, parse scales tiny "USD".toList = .ok m ∧
      ∃ d, exact.newFromString (trimSpace tiny) = some d ∧ ¬ OfUnits (scale scales "USD".toList) d := by
  constructor
  · refine ⟨_,rfl,?_⟩
    exact emptyLost chip (by decide)
  · have norm : normCurrency "USD".toList = .ok "USD".toList := by decide
    have read : Exact.read (trimSpace tiny) = some ⟨1,-2147483648⟩ := by decide
    have parsed := parseRead (L := exact) (d := (⟨1,-2147483648⟩ : Exact)) scales _ norm read
    have never : ¬ scale scales "USD".toList < -Int32.ofInt (-2147483648) := by decide
    refine ⟨_,parsed.trans (if_neg (fun both => never both.1)),_,read,?_⟩
    exact tinyNoMultiple (N := 2147483648) (by decide)

end DevkitCommon.Moneyx
