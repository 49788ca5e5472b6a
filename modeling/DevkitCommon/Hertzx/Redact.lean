import DevkitCommon.Lib.JSON
import DevkitCommon.Lib.Query

/-! The bodies of the audit log: what is JSON or a form is recorded with the values of
secret names struck out, anything else by its size, and what is recorded is cut. -/
namespace DevkitCommon.Hertzx.Audit
open DevkitCommon.Text (runes tail)
open DevkitCommon.JSON
open DevkitCommon.Query (Params parseQuery gather pairs pairsAppend gatherShown shown)

abbrev Bytes := List UInt8

def auditBodyLimit : Nat := 4096
def AuditTruncated : Bytes := bytes "…[truncated]"

def secretWords : List String :=
  ["password","passwd","secret","token","key","otp","pin","card","credential","authorization","cookie","session",
    "signature","ticket","idno","id_no","idnumber","id_number","identity","bank","_account","accountno","account_no",
    "crypto","walletaddress","wallet_address"]

/- Letters without their case; the Kelvin sign and the long s are such letters too. -/
def foldCase (c : Char) : Char :=
  if 'A' ≤ c ∧ c ≤ 'Z' then Char.ofNat (c.toNat + 32)
  else if c.toNat = 0x212A then 'k'
  else if c.toNat = 0x17F then 's'
  else c

def secretKey (k : Bytes) : Bool :=
  let name := (runes k).map foldCase
  secretWords.any (fun w => name.tails.any (fun t => w.toList.isPrefixOf t))

def struck : Value := .text (bytes "***")

mutual
def redactValue : Value → Value
  | .object members => .object (redactMembers members)
  | .array items => .array (redactItems items)
  | .null => .null
  | .bool b => .bool b
  | .number raw => .number raw
  | .text s => .text s
def redactItems : List Value → List Value
  | [] => []
  | v::rest => redactValue v::redactItems rest
def redactMembers : List (Bytes × Value) → List (Bytes × Value)
  | [] => []
  | (k,v)::rest => (k,if secretKey k then struck else redactValue v)::redactMembers rest
end

def valid (bs : Bytes) : Bool := (units bs).all Option.isSome

def formMember (p : Bytes × List Bytes) : Bytes × Value :=
  (p.1,match p.2 with
    | [v] => .text v
    | vs => .array (vs.map Value.text))

def parseForm (body : Bytes) : Option Value :=
  if 0x3D ∉ body ∨ valid body = false then none
  else match parseQuery body with
    | none => none
    | some [] => none
    | some q => some (.object (q.map formMember))

/- Bytes that are part of no character become one U+FFFD for each stretch of them. -/
def validUnits : Bool → List (Option Char) → Bytes
  | _, [] => []
  | _, some c::rest => String.utf8EncodeChar c ++ validUnits false rest
  | true, none::rest => validUnits true rest
  | false, none::rest => String.utf8EncodeChar (Char.ofNat 0xFFFD) ++ validUnits true rest

def toValidUTF8 (s : Bytes) : Bytes := validUnits false (units s)

def boundary (s : Bytes) : Nat → Nat
  | 0 => 0
  | n+1 => if (s[n+1]?).any (fun b => !tail b) then n+1 else boundary s n

def cutUTF8 (s : Bytes) (limit : Nat) (mark : Bytes) : Bytes :=
  let s := toValidUTF8 s
  if s.length ≤ limit then s else s.take (boundary s (limit - mark.length)) ++ mark

/- Another value seems to follow: only a closing bracket or brace does not look like one. -/
def more (rest : Bytes) : Bool :=
  match rest.dropWhile space with
  | [] => false
  | c::_ => c != 0x5D && c != 0x7D

def whole (body : Bytes) : Option Value :=
  match decode body with
  | some (v,rest) => if more rest then none else some v
  | none => none

def unread (n : Nat) : Bytes := bytes s!"<non-JSON body, {n} bytes, not recorded>"

def recorded (v : Value) : Bytes := cutUTF8 (marshal (redactValue v)) auditBodyLimit AuditTruncated

def Redact (body : Bytes) : Bytes :=
  if body = [] then []
  else match whole body with
    | some v => recorded v
    | none => match parseForm body with
      | some form => recorded form
      | none => unread body.length

end DevkitCommon.Hertzx.Audit
