import DevkitCommon.Lib.Float64
import DevkitCommon.Lib.JSON
import DevkitCommon.Lib.Words
import DevkitCommon.Webhookx.Callback

/-! The id of a callback, from a header or from a field of its body: a string as it is, a
number as the double nearest to it, cut to an integer. -/
namespace DevkitCommon.Webhookx
open DevkitCommon.JSON (Bytes Value bytes decode space)
open Float64 Rounding

section Numbers

def natOf (ds : Bytes) : ℕ := ds.foldl (fun n d => 10*n + (d.toNat - 0x30)) 0

def powerOf : Bytes → ℤ
  | 0x2D::ds => -natOf ds
  | 0x2B::ds => natOf ds
  | ds => natOf ds

def numberOf (raw : Bytes) : ℚ :=
  let unsigned := if raw.head? = some 0x2D then raw.drop 1 else raw
  let plain (c : UInt8) : Bool := c != 0x65 && c != 0x45
  let mantissa := unsigned.takeWhile plain
  let whole := mantissa.takeWhile (fun c => c != 0x2E)
  let fraction := (mantissa.dropWhile (fun c => c != 0x2E)).drop 1
  let power := powerOf ((unsigned.dropWhile plain).drop 1)
  (if raw.head? = some 0x2D then -1 else 1)*natOf (whole ++ fraction)*10^(power - fraction.length)

def parseFloat (raw : Bytes) : Option ℚ := nearest (numberOf raw)

/- int64(f): the language says nothing of a float beyond int64, the platform does. -/
def toInt64 (beyond : ℚ → Int64) (f : ℚ) : Int64 :=
  if -9223372036854775808 ≤ f ∧ f < 9223372036854775808 then Int64.ofInt (down f) else beyond f

end Numbers
section Bodies

def numeralEnds : JSON.State → UInt8 → List Bytes
  | .reading (.number raw numeral) _, c => if (numeral.next c).isNone && numeral.complete then [raw] else []
  | _, _ => []

def numerals : JSON.State → Bytes → List Bytes
  | _, [] => []
  | s, c::rest => numeralEnds s c ++ numerals (JSON.step s c) rest

def inRange (body : Bytes) : Bool := (numerals JSON.start (body ++ [0x20])).all (fun raw => (parseFloat raw).isSome)

def document (body : Bytes) : Option Value :=
  match decode body with
  | some (v,rest) => if rest.all space then some v else none
  | none => none

def unmarshal (body : Bytes) : Option Value := if inRange body then document body else none

def walk : Value → List Bytes → Option Value
  | v, [] => some v
  | .object members, part::rest => (members.lookup part).bind (fun v => walk v rest)
  | _, _::_ => none

end Bodies
section Headers

def tokenChar (c : Char) : Bool := c.isAlphanum || "!#$%&'*+-.^_`|~".toList.contains c

def canonicalFrom : Bool → List Char → List Char
  | _, [] => []
  | first, c::rest => (if first then c.toUpper else c.toLower)::canonicalFrom (c == '-') rest

def canonicalKey (name : String) : String :=
  if name.toList.all tokenChar then String.ofList (canonicalFrom true name.toList) else name

def headerGet (headers : List (String × String)) (name : String) : String :=
  ((headers.find? (fun h => canonicalKey h.1 == canonicalKey name)).map Prod.snd).getD ""

def trimmed (s : String) : String := String.ofList (Words.trimSpace s.toList)

end Headers

def EventIDSource.path (src : EventIDSource) : List Bytes :=
  (src.json.toList.splitOn '.').map (fun part => bytes (String.ofList part))

variable (beyond : ℚ → Int64)

def idOf : Option Value → Bytes
  | some (.text s) => s
  | some (.number raw) => match parseFloat raw with
    | some f => bytes (Text.formatInt (toInt64 beyond f).toInt)
    | none => []
  | _ => []

def eventID (src : EventIDSource) (headers : List (String × String)) (body : Bytes) : Bytes :=
  if src.header ≠ "" then bytes (trimmed (headerGet headers src.header))
  else if src.json ≠ "" then match unmarshal body with
    | some doc => idOf beyond (walk doc src.path)
    | none => []
  else []

def dedupeKey (provider : String) (id : Bytes) : Option Bytes :=
  if id = [] then none else some (bytes "cb:" ++ bytes provider ++ bytes ":" ++ id)

def valueAt (src : EventIDSource) (body : Bytes) : Option Value :=
  if src.header = "" ∧ src.json ≠ "" then (document body).bind (fun doc => walk doc src.path) else none

def Different : Value → Value → Prop
  | .text s, .text t => s ≠ t
  | .number r, .number q => numberOf r ≠ numberOf q
  | _, _ => False

def CutApart (r q : Bytes) : Prop := (parseFloat r).map (toInt64 beyond) ≠ (parseFloat q).map (toInt64 beyond)

def Says : Value → Prop
  | .text s => s ≠ []
  | .number raw => (parseFloat raw).isSome = true
  | _ => False

def Told (body body' : Bytes) (a b : Value) : Prop :=
  match inRange body,inRange body' with
  | true,true => ∀ r q, a = .number r → b = .number q → CutApart beyond r q
  | true,false => Says a
  | false,true => Says b
  | false,false => False

variable {beyond : ℚ → Int64} {src : EventIDSource} {provider : String} {headers : List (String × String)}
  {body : Bytes} {id id' : Bytes} {a b : Value}

theorem bytesInj {s t : String} (same : bytes s = bytes t) : s = t := by
  have whole : s.toList.utf8Encode = t.toList.utf8Encode := congrArg List.toByteArray same
  rw [String.utf8Encode_toList,String.utf8Encode_toList] at whole
  exact String.toByteArray_inj.mp whole

theorem formatBack (n : Int64) : Text.parseInt 64 (Text.formatInt n.toInt) = some n.toInt := by
  have least := Int64.le_toInt n
  have most := Int64.toInt_lt n
  exact Text.parseFormat (by simp [Text.fits]; omega)

theorem formatInj {m n : Int64} (same : Text.formatInt m.toInt = Text.formatInt n.toInt) : m = n := by
  have both := (formatBack m).symm.trans (same ▸ formatBack n)
  exact Int64.toInt_inj.mp (Option.some.inj both)

theorem keysSame : dedupeKey provider id = dedupeKey provider id' ↔ id = id' := by
  constructor
  · intro same
    unfold dedupeKey at same
    split at same
    · rename_i none'
      split at same
      · rename_i none''
        exact none'.trans none''.symm
      · cases same
    · split at same
      · cases same
      · exact List.append_cancel_left (Option.some.inj same)
  · rintro rfl
    rfl

theorem idRead (found : valueAt src body = some a) :
    eventID beyond src headers body = if inRange body then idOf beyond (some a) else [] := by
  unfold valueAt at found
  split at found <;> try contradiction
  rename_i configured
  obtain ⟨doc,read,at'⟩ := Option.bind_eq_some_iff.mp found
  rw [eventID,if_neg (not_not.mpr configured.1),if_pos configured.2,unmarshal]
  cases inRange body with
  | true => simp only [if_true,read,at']
  | false => rfl

theorem formatSays (n : Int64) : bytes (Text.formatInt n.toInt) ≠ [] := by
  intro none'
  have empty : Text.formatInt n.toInt = "" := bytesInj none'
  have back : Text.parseInt 64 (Text.formatInt n.toInt) = some n.toInt := formatBack n
  rw [empty] at back
  cases back

theorem numberNone {raw : Bytes} (read : parseFloat raw = none) : idOf beyond (some (.number raw)) = [] := by
  unfold idOf
  simp only [read]

theorem numberSome {raw : Bytes} {f : ℚ} (read : parseFloat raw = some f) :
    idOf beyond (some (.number raw)) = bytes (Text.formatInt (toInt64 beyond f).toInt) := by
  unfold idOf
  simp only [read]

theorem saysId : idOf beyond (some a) ≠ [] ↔ Says a := by
  cases a with
  | text s => exact Iff.rfl
  | number raw =>
    cases read : parseFloat raw with
    | none =>
      rw [numberNone read,Says,read]
      exact ⟨fun some' => absurd rfl some',fun some' => by cases some'⟩
    | some f =>
      rw [numberSome read,Says,read]
      exact ⟨fun _ => rfl,fun _ => formatSays _⟩
  | null | bool | array | object => exact ⟨fun some' => some' rfl,False.elim⟩

theorem numbersId {r q : Bytes} : idOf beyond (some (.number r)) ≠ idOf beyond (some (.number q)) ↔ CutApart beyond r q := by
  unfold CutApart
  refine not_congr ?_
  cases read : parseFloat r with
  | none =>
    rw [numberNone read]
    cases read' : parseFloat q with
    | none =>
      rw [numberNone read']
      exact ⟨fun _ => rfl,fun _ => rfl⟩
    | some g =>
      rw [numberSome read']
      exact ⟨fun same => absurd same.symm (formatSays _),fun same => by cases same⟩
  | some f =>
    rw [numberSome read]
    cases read' : parseFloat q with
    | none =>
      rw [numberNone read']
      exact ⟨fun same => absurd same (formatSays _),fun same => by cases same⟩
    | some g =>
      rw [numberSome read']
      exact ⟨fun same => congrArg some (formatInj (bytesInj same)),
        fun same => congrArg (fun k => bytes (Text.formatInt (Int64.toInt k))) (Option.some.inj same)⟩

theorem keysTold (provider : String) (headers headers' : List (String × String)) {body' : Bytes}
    (found : valueAt src body = some a) (found' : valueAt src body' = some b) (differ : Different a b) :
    dedupeKey provider (eventID beyond src headers body) ≠ dedupeKey provider (eventID beyond src headers' body') ↔
      Told beyond body body' a b := by
  rw [Ne,keysSame,idRead found,idRead found',Told]
  cases inRange body with
  | true =>
    cases inRange body' with
    | true =>
      simp only [if_true]
      cases a with
      | text s =>
        cases b with
        | text t => exact ⟨fun _ r q bad => (by cases bad),fun _ => differ⟩
        | null | bool | number | array | object => exact differ.elim
      | number r =>
        cases b with
        | number q =>
          rw [← ne_eq,numbersId]
          exact ⟨fun apart r q same same' => by cases same; cases same'; exact apart,fun all => all r q rfl rfl⟩
        | null | bool | text | array | object => exact differ.elim
      | null | bool | array | object => exact differ.elim
    | false =>
      simp only [if_true,Bool.false_eq_true,if_false]
      exact saysId
  | false =>
    cases inRange body' with
    | true =>
      simp only [if_true,Bool.false_eq_true,if_false]
      exact (not_congr eq_comm).trans saysId
    | false => simp

theorem integersApart {r q : Bytes} {m n : ℤ} (one : numberOf r = m) (other : numberOf q = n)
    (small : |m| < 2^53) (small' : |n| < 2^53) (differ : m ≠ n) : CutApart beyond r q := by
  have cut {k : ℤ} (small : |k| < 2^53) : (toInt64 beyond k).toInt = k := by
    obtain ⟨low,high⟩ := abs_lt.mp small
    have inside : (-9223372036854775808 : ℚ) ≤ k ∧ (k : ℚ) < 9223372036854775808 := by
      constructor
      · exact_mod_cast (by omega : (-9223372036854775808 : ℤ) ≤ k)
      · exact_mod_cast (by omega : k < (9223372036854775808 : ℤ))
    rw [toInt64,if_pos inside,downInt,Int64.toInt_ofInt_of_le (by omega) (by omega)]
  have read {raw : Bytes} {k : ℤ} (is : numberOf raw = k) (small : |k| < 2^53) : parseFloat raw = some (k : ℚ) := by
    rw [parseFloat,is,nearestInt small]
  rw [CutApart,read one small,read other small']
  intro same
  have words := congrArg Int64.toInt (Option.some.inj same)
  rw [cut small,cut small'] at words
  exact differ words

def idBody (raw : String) : Bytes := bytes ("\x7b\"id\":" ++ raw ++ "\x7d")

def numeralAt (v : Option Value) (raw : Bytes) : Bool :=
  match v with
  | some (.number r) => r == raw
  | _ => false

theorem numeralIs {v : Option Value} {raw : Bytes} (same : numeralAt v raw = true) : v = some (.number raw) := by
  unfold numeralAt at same
  split at same
  · rw [eq_of_beq same]
  · cases same

theorem smallIds : dedupeKey "pay" (eventID (fun _ => 0) ⟨"","id"⟩ [] (idBody "41")) ≠
    dedupeKey "pay" (eventID (fun _ => 0) ⟨"","id"⟩ [] (idBody "42")) := by
  have one : valueAt ⟨"","id"⟩ (idBody "41") = some (.number (bytes "41")) := numeralIs (by decide)
  have other : valueAt ⟨"","id"⟩ (idBody "42") = some (.number (bytes "42")) := numeralIs (by decide)
  have ranged : inRange (idBody "41") = true := by decide +kernel
  have ranged' : inRange (idBody "42") = true := by decide +kernel
  have differ : Different (.number (bytes "41")) (.number (bytes "42")) := by
    show numberOf (bytes "41") ≠ numberOf (bytes "42")
    decide +kernel
  refine (keysTold "pay" [] [] one other differ).mpr ?_
  rw [Told,ranged,ranged']
  intro r q same same'
  cases same
  cases same'
  exact integersApart (m := 41) (n := 42) (by decide +kernel) (by decide +kernel) (by decide) (by decide) (by decide)

theorem largeIds : ¬∀ (beyond : ℚ → Int64) (src : EventIDSource) (provider : String)
    (headers headers' : List (String × String)) (body body' : Bytes) (a b : Value),
    valueAt src body = some a → valueAt src body' = some b → Different a b →
      dedupeKey provider (eventID beyond src headers body) ≠ dedupeKey provider (eventID beyond src headers' body') := by
  intro all
  have differ : Different (.number (bytes "9007199254740992")) (.number (bytes "9007199254740993")) := by
    show numberOf (bytes "9007199254740992") ≠ numberOf (bytes "9007199254740993")
    decide +kernel
  have one : valueAt ⟨"","id"⟩ (idBody "9007199254740992") = some (.number (bytes "9007199254740992")) :=
    numeralIs (by decide)
  have other : valueAt ⟨"","id"⟩ (idBody "9007199254740993") = some (.number (bytes "9007199254740993")) :=
    numeralIs (by decide)
  exact all (fun _ => 0) ⟨"","id"⟩ "pay" [] [] _ _ _ _ one other differ (by decide +kernel)

end DevkitCommon.Webhookx
