import DevkitCommon.Lib.Text
import Mathlib.Data.Vector.Basic

/-! IP addresses and their texts: both forms, read and written, an address with a port,
networks and what they hold. -/
namespace DevkitCommon.IP
open Text

inductive Addr where
  | v4 (ip : List.Vector UInt8 4)
  | v6 (ip : List.Vector UInt8 16) (zone : List Char)
  deriving DecidableEq

def sized (n : Nat) (bs : List UInt8) : Option (List.Vector UInt8 n) :=
  if h : bs.length = n then some ⟨bs,h⟩ else none

section Read

def octet (cs : List Char) : Option UInt8 :=
  if cs.head? = some '0' ∧ cs ≠ ['0'] then none
  else ((digits cs).filter (fun n => n ≤ 255)).map UInt8.ofNat

def fields (cs : List Char) : Option (List.Vector UInt8 4) := ((cs.splitOn '.').mapM octet).bind (sized 4)

def hexDigit (c : Char) : Option Nat :=
  if '0' ≤ c ∧ c ≤ '9' then some (c.toNat - '0'.toNat)
  else if 'a' ≤ c ∧ c ≤ 'f' then some (c.toNat - 'a'.toNat + 10)
  else if 'A' ≤ c ∧ c ≤ 'F' then some (c.toNat - 'A'.toNat + 10)
  else none

def isHex (c : Char) : Bool := (hexDigit c).isSome

def group (cs : List Char) : List UInt8 :=
  let n := cs.foldl (fun n c => 16*n + (hexDigit c).getD 0) 0
  [UInt8.ofNat (n/256),UInt8.ofNat (n%256)]

structure Part where
  ip : List UInt8
  ellipsis : Option Nat

def groups : Nat → Part → List Char → Option (Part × List Char)
  | 0, part, cs => some (part,cs)
  | n+1, part, cs =>
    let hex := cs.takeWhile isHex
    if hex = [] ∨ 4 < hex.length then none
    else
      let next : Part := {part with ip := part.ip ++ group hex}
      match cs.dropWhile isHex with
      | [] => some (next,[])
      | '.'::_ =>
        if part.ellipsis = none ∧ part.ip.length ≠ 12 ∨ 16 < part.ip.length + 4 then none
        else (fields cs).map (fun four => ({part with ip := part.ip ++ four.toList},[]))
      | ':' :: ':' :: rest =>
        if part.ellipsis.isSome then none
        else
          let next : Part := {next with ellipsis := some next.ip.length}
          if rest = [] then some (next,[]) else groups n next rest
      | ':'::c::rest => groups n next (c::rest)
      | _ => none

def Part.expand (part : Part) : Option (List UInt8) :=
  match part.ellipsis with
  | none => some part.ip
  | some k =>
    if part.ip.length < 16 then some (part.ip.take k ++ List.replicate (16 - part.ip.length) 0 ++ part.ip.drop k)
    else none

def sixteen (cs : List Char) : Option (List.Vector UInt8 16) :=
  let read : Option (Part × List Char) := match cs with
    | [':',':'] => some (⟨[],some 0⟩,[])
    | ':' :: ':' :: rest => groups 8 ⟨[],some 0⟩ rest
    | _ => groups 8 ⟨[],none⟩ cs
  ((read.filter (fun r => r.2 = [])).bind (fun r => r.1.expand)).bind (sized 16)

/- netip.ParseAddr: the first of these three letters says which form it is. -/
def parseAddr (cs : List Char) : Option Addr :=
  match cs.find? (fun c => c = '.' ∨ c = ':' ∨ c = '%') with
  | some '.' => (fields cs).map .v4
  | some ':' =>
    let zone := (cs.dropWhile (fun c => c != '%')).drop 1
    if '%' ∈ cs ∧ zone = [] then none
    else (sixteen (cs.takeWhile (fun c => c != '%'))).map (fun ip => .v6 ip zone)
  | _ => none

def splitHostPort (cs : List Char) : Option (List Char × List Char) :=
  let port := (cs.reverse.takeWhile (fun c => c != ':')).reverse
  let front := ((cs.reverse.dropWhile (fun c => c != ':')).drop 1).reverse
  if ':' ∉ cs then none
  else match cs with
    | '['::inner =>
      let host := inner.takeWhile (fun c => c != ']')
      if front = '['::host ++ [']'] ∧ '[' ∉ inner ∧ ']' ∉ port then some (host,port) else none
    | _ => if ':' ∈ front ∨ '[' ∈ cs ∨ ']' ∈ cs then none else some (front,port)

end Read

section Write

def dotted (ip : List UInt8) : List Char := ['.'].intercalate (ip.map (fun b => Nat.toDigits 10 b.toNat))

def pairs : List UInt8 → List Nat
  | a::b::rest => (256*a.toNat + b.toNat)::pairs rest
  | _ => []

def zerosAt (gs : List Nat) (i : Nat) : Nat := ((gs.drop i).takeWhile (fun g => g = 0)).length

/- The first of the longest runs of zeros, two at least: where it starts and its length. -/
def longest (gs : List Nat) : Option (Nat × Nat) :=
  (List.range gs.length).foldl (fun best i =>
    if 2 ≤ zerosAt gs i ∧ (best.map Prod.snd).getD 0 < zerosAt gs i then some (i,zerosAt gs i) else best) none

def hexText (gs : List Nat) : List Char := [':'].intercalate (gs.map (Nat.toDigits 16))

def colons (ip : List UInt8) : List Char :=
  let gs := pairs ip
  match longest gs with
  | none => hexText gs
  | some (i,n) => hexText (gs.take i) ++ ':' :: ':' :: hexText (gs.drop (i+n))

end Write

def v4Prefix : List UInt8 := List.replicate 10 0 ++ [0xFF,0xFF]

def to4 (ip : List UInt8) : Option (List UInt8) :=
  if ip.length = 4 then some ip
  else if ip.length = 16 ∧ ip.take 12 = v4Prefix then some (ip.drop 12)
  else none

section Addr

def Addr.zone : Addr → List Char
  | .v4 _ => []
  | .v6 _ zone => zone

def Addr.bitLen : Addr → Nat
  | .v4 _ => 32
  | .v6 _ _ => 128

def Addr.as16 : Addr → List UInt8
  | .v4 ip => v4Prefix ++ ip.toList
  | .v6 ip _ => ip.toList

def Addr.unmap : Addr → Addr
  | .v4 ip => .v4 ip
  | .v6 ip zone => (((to4 ip.toList).bind (sized 4)).map .v4).getD (.v6 ip zone)

def Addr.withZone (zone : List Char) : Addr → Addr
  | .v4 ip => .v4 ip
  | .v6 ip _ => .v6 ip zone

def Addr.isUnspecified : Addr → Bool
  | .v4 ip => ip.toList = List.replicate 4 0
  | .v6 ip zone => ip.toList = List.replicate 16 0 ∧ zone = []

def Addr.string : Addr → List Char
  | .v4 ip => dotted ip.toList
  | .v6 ip zone =>
    (match to4 ip.toList with
      | some four => "::ffff:".toList ++ dotted four
      | none => colons ip.toList) ++ if zone = [] then [] else '%'::zone

end Addr

section Net

def parseIP (cs : List Char) : Option (List UInt8) :=
  ((parseAddr cs).filter (fun a => a.zone = [])).map Addr.as16

def isUnspecified (ip : List UInt8) : Bool := to4 ip = some (List.replicate 4 0) || ip == List.replicate 16 0

def string (ip : List UInt8) : List Char :=
  match to4 ip with
  | some four => dotted four
  | none => colons ip

structure IPNet where
  ip : List UInt8
  mask : List UInt8
  deriving DecidableEq

def cidrMask (ones size : Nat) : List UInt8 :=
  (List.range size).map (fun i => UInt8.ofNat (256 - 2^(8 - min 8 (ones - 8*i))))

def masked (ip mask : List UInt8) : List UInt8 := List.zipWith (fun a m => a &&& m) ip mask

def parseCIDR (cs : List Char) : Option IPNet :=
  if '/' ∉ cs then none
  else match parseAddr (cs.takeWhile (fun c => c != '/')) with
    | none => none
    | some addr =>
      if addr.zone ≠ [] then none
      else match (digits ((cs.dropWhile (fun c => c != '/')).drop 1)).filter (fun n => n ≤ addr.bitLen) with
        | none => none
        | some ones =>
          let mask := cidrMask ones (addr.bitLen/8)
          some ⟨masked (addr.as16.drop (16 - addr.bitLen/8)) mask,mask⟩

def IPNet.number (n : IPNet) : Option (List UInt8 × List UInt8) :=
  match to4 n.ip with
  | some four =>
    if n.mask.length = 4 then some (four,n.mask) else if n.mask.length = 16 then some (four,n.mask.drop 12) else none
  | none => if n.ip.length = 16 ∧ n.mask.length = 16 then some (n.ip,n.mask) else none

def IPNet.contains (n : IPNet) (ip : List UInt8) : Bool :=
  let ip := (to4 ip).getD ip
  match n.number with
  | none => false
  | some (number,mask) => ip.length == number.length && masked number mask == masked ip mask

end Net

section Spelling

theorem joinedNe {sep : List Char} {parts : List (List Char)} (filled : parts ≠ []) (each : ∀ p ∈ parts, p ≠ []) :
    sep.intercalate parts ≠ [] := by
  cases parts with
  | nil => exact absurd rfl filled
  | cons p rest =>
    have first := each p List.mem_cons_self
    cases rest with
    | nil => simpa [List.intercalate] using first
    | cons q rest =>
      intro empty
      simp [List.intercalate] at empty
      exact first empty.1

theorem dottedNe {ip : List UInt8} (filled : ip ≠ []) : dotted ip ≠ [] := joinedNe (by simpa using filled) (by simp)

theorem hexTextNe {gs : List Nat} (filled : gs ≠ []) : hexText gs ≠ [] := joinedNe (by simpa using filled) (by simp)

theorem colonsNe {ip : List UInt8} (filled : pairs ip ≠ []) : colons ip ≠ [] := by
  cases run : longest (pairs ip) with
  | none => simpa [colons,run] using hexTextNe filled
  | some run' => simp [colons,run]

theorem pairsNe {ip : List UInt8} (long : ip.length = 16) : pairs ip ≠ [] := by
  match ip with
  | [] => simp at long
  | [_] => simp at long
  | _::_::_ => simp [pairs]

theorem to4Length {ip four : List UInt8} (inside : to4 ip = some four) : four.length = 4 := by
  unfold to4 at inside
  split at inside
  · rename_i short
    cases Option.some.inj inside
    exact short
  · split at inside
    · rename_i long
      cases Option.some.inj inside
      simp [long.1]
    · contradiction

theorem addrNe (a : Addr) : a.string ≠ [] := by
  cases a with
  | v4 ip => exact dottedNe (List.ne_nil_of_length_eq_add_one ip.2)
  | v6 ip zone =>
    have front : (match to4 ip.toList with
        | some four => "::ffff:".toList ++ dotted four
        | none => colons ip.toList) ≠ [] := by
      cases to4 ip.toList with
      | none => exact colonsNe (pairsNe ip.2)
      | some four => simp
    exact List.append_ne_nil_of_left_ne_nil front _

end Spelling
end DevkitCommon.IP
