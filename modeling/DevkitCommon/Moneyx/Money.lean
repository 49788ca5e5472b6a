import DevkitCommon.Lib.JSON
import DevkitCommon.Moneyx.Decimal

/-! The one representation of money: a decimal amount in the major unit and a currency with so
many decimals. Sharing an amount cuts every share to the currency's decimals and hands the rest
out unit by unit. -/
namespace DevkitCommon.Moneyx
open Words

inductive RoundingMode where
  | roundHalfUp | roundDown | roundUp | roundHalfEven
  deriving DecidableEq, Repr

inductive Err where
  | currencyMismatch (a b : Text)
  | scale (amount : Text) (scale : Int32) (c : Text)
  | badAmount (amount : Text)
  | currency (c : Text)
  | required
  | rate (rate : Text)
  | splitZero
  | negativeWeight
  | zeroWeights
  | json
  deriving DecidableEq, Repr

/- The map of scales as it stands: the standard's exceptions, and what is registered. -/
abbrev Registry := Text → Option Int32

def scales : Registry := fun c =>
  if (["BIF","CLP","DJF","GNF","ISK","JPY","KMF","KRW","PYG","RWF","UGX","UYI","VND","VUV","XAF","XOF","XPF"].map
    String.toList).contains c then some 0
  else if (["BHD","IQD","JOD","KWD","LYD","OMR","TND"].map String.toList).contains c then some 3
  else if (["CLF","UYW"].map String.toList).contains c then some 4
  else if (["BTC","ETH"].map String.toList).contains c then some 8
  else if (["USDT","USDC"].map String.toList).contains c then some 6
  else none

def registerCurrency [Letters] (reg : Registry) (code : Text) (scale : Int32) : Registry :=
  fun c => if c = toUpper code then some scale else reg c

def scale [Letters] (reg : Registry) (currency : Text) : Int32 := (reg (toUpper currency)).getD 2

def normCurrency [Letters] (c : Text) : Except Err Text :=
  let c := toUpper (trimSpace c)
  if byteLength c < 3 ∨ 8 < byteLength c then .error (.currency c) else .ok c

structure Money (L : Decimals) where
  amount : L.Dec
  currency : Text

variable {L : Decimals} (reg : Registry)

def round (d : L.Dec) (scale : Int32) : RoundingMode → L.Dec
  | .roundDown => L.roundDown d scale
  | .roundUp => L.roundUp d scale
  | .roundHalfEven => L.roundBank d scale
  | .roundHalfUp => L.round d scale

def fromDecimal [Letters] (d : L.Dec) (currency : Text) (mode : RoundingMode) : Except Err (Money L) := do
  let c ← normCurrency currency
  .ok ⟨round d (scale reg c) mode,c⟩

def parse [Letters] (amount currency : Text) : Except Err (Money L) := do
  let c ← normCurrency currency
  match L.newFromString (trimSpace amount) with
  | none => .error (.badAmount amount)
  | some d =>
    if scale reg c < -L.exponent d ∧ L.equal d (L.truncate d (scale reg c)) = false then
      .error (.scale amount (scale reg c) c)
    else .ok ⟨L.truncate d (scale reg c),c⟩

/- The error of a malformed code is not looked at: the currency is empty then. -/
def zero [Letters] (currency : Text) : Money L :=
  match normCurrency currency with
  | .ok c => ⟨L.zero,c⟩
  | .error _ => ⟨L.zero,[]⟩

def of [Letters] : Option (Text × Text) → Except Err (Money L)
  | none => .error .required
  | some (amount,currency) => parse reg amount currency

namespace Money

def string [Letters] (m : Money L) : Text := L.stringFixed m.amount (scale reg m.currency)

def parts [Letters] (m : Money L) : Text × Text := (m.string reg,m.currency)

def neg (m : Money L) : Money L := ⟨L.neg m.amount,m.currency⟩
def abs (m : Money L) : Money L := ⟨L.abs m.amount,m.currency⟩

def same (m o : Money L) : Except Err Unit :=
  if m.currency ≠ o.currency then .error (.currencyMismatch m.currency o.currency) else .ok ()

def add (m o : Money L) : Except Err (Money L) := do
  m.same o
  .ok ⟨L.add m.amount o.amount,m.currency⟩

def sub (m o : Money L) : Except Err (Money L) := do
  m.same o
  .ok ⟨L.sub m.amount o.amount,m.currency⟩

def equal (m o : Money L) : Bool := m.currency == o.currency && L.equal m.amount o.amount

def mul [Letters] (m : Money L) (rate : L.Dec) (mode : RoundingMode) : Money L :=
  ⟨round (L.mul m.amount rate) (scale reg m.currency) mode,m.currency⟩

end Money

def handOut (step : L.Dec) : ℕ → List (Money L) → List (Money L)
  | units+1, p::rest => {p with amount := L.add p.amount step}::handOut step units rest
  | _, out => out

def handOutRest (unit rem : L.Dec) (out : List (Money L)) : List (Money L) :=
  let step := if L.isNegative rem then L.neg unit else unit
  let rem := if L.isNegative rem then L.neg rem else rem
  handOut step (L.intPart (L.div rem unit)).toInt.toNat out

def Money.split [Letters] (m : Money L) (n : Int64) : Except Err (List (Money L)) :=
  if n ≤ 0 then .error .splitZero
  else
    let scale := scale reg m.currency
    let unit := L.new 1 (-scale)
    let base := L.truncate (L.div m.amount (L.newFromInt n)) scale
    let rem := L.sub m.amount (L.mul base (L.newFromInt n))
    .ok (handOutRest unit rem (List.replicate n.toInt.toNat ⟨base,m.currency⟩))

def total (sum : Int64) : List Int64 → Except Err Int64
  | [] => .ok sum
  | w::rest => if w < 0 then .error .negativeWeight else total (sum+w) rest

def Money.allocate [Letters] (m : Money L) (weights : List Int64) : Except Err (List (Money L)) := do
  let total ← total 0 weights
  if total = 0 then .error .zeroWeights
  else
    let scale := scale reg m.currency
    let unit := L.new 1 (-scale)
    let share := fun w => L.truncate (L.div (L.mul m.amount (L.newFromInt w)) (L.newFromInt total)) scale
    let out := weights.map (fun w => (⟨share w,m.currency⟩ : Money L))
    let sum := (weights.map share).foldl L.add L.zero
    .ok (handOutRest unit (L.sub m.amount sum) out)

section JSON

abbrev Members := List (Text × Text)

def quoted (t : Text) : Text := '"'::(t.flatMap JSON.escape ++ ['"'])

def unquoted : Text → Option Text
  | '"'::rest => some (JSON.unescape rest.dropLast)
  | _ => none

def null : Text := "null".toList

def Money.marshalJSON [Letters] (m : Money L) : Members :=
  [("amount".toList,quoted (m.string reg)),("currency".toList,quoted m.currency)]

/- The last value under a name, whatever its case; the currency is a string, and null leaves it. -/
def readMembers : Text → Text → Members → Except Err (Text × Text)
  | amount, currency, [] => .ok (amount,currency)
  | amount, currency, (name,raw)::rest =>
    if equalFold name "amount".toList then readMembers raw currency rest
    else if equalFold name "currency".toList then
      if raw = null then readMembers amount currency rest
      else match unquoted raw with
        | some c => readMembers amount c rest
        | none => .error .json
    else readMembers amount currency rest

def unmarshalJSON [Letters] (b : Members) : Except Err (Money L) := do
  let (amount,currency) ← readMembers [] [] b
  parse reg (trim (· == '"') amount) currency

end JSON

end DevkitCommon.Moneyx
