import DevkitCommon.Lib.IP

/-! Which addresses a provider with deny_private_hosts may be dialed at: every address outside of a list of
networks, whichever way it is written, and nothing that is no address. -/
namespace DevkitCommon.Httpx.PrivateHosts
open IP

/- The methods of net.IP: an address of four bytes first, then one of sixteen. -/
def isLoopback (ip : List UInt8) : Bool := match to4 ip with
  | some four => four.take 1 == [127]
  | none => ip == List.replicate 15 0 ++ [1]

def isPrivate (ip : List UInt8) : Bool := match to4 ip, ip with
  | some [a,b,_,_], _ => a == 10 || (a == 172 && b &&& 0xF0 == 16) || (a == 192 && b == 168)
  | none, a::_ => ip.length == 16 && a &&& 0xFE == 0xFC
  | _, _ => false

def isLinkLocalUnicast (ip : List UInt8) : Bool := match to4 ip, ip with
  | some [a,b,_,_], _ => a == 169 && b == 254
  | none, a::b::_ => ip.length == 16 && a == 0xFE && b &&& 0xC0 == 0x80
  | _, _ => false

def isLinkLocalMulticast (ip : List UInt8) : Bool := match to4 ip, ip with
  | some [a,b,c,_], _ => a == 224 && b == 0 && c == 0
  | none, a::b::_ => ip.length == 16 && a == 0xFF && b &&& 0x0F == 0x02
  | _, _ => false

def isInterfaceLocalMulticast (ip : List UInt8) : Bool := match ip with
  | a::b::_ => ip.length == 16 && a == 0xFF && b &&& 0x0F == 0x01
  | _ => false

def isMulticast (ip : List UInt8) : Bool := match to4 ip, ip with
  | some [a,_,_,_], _ => a &&& 0xF0 == 0xE0
  | none, a::_ => ip.length == 16 && a == 0xFF
  | _, _ => false

/- 100.64.0.0/10, which IsPrivate does not cover. -/
def cgnat : IPNet := ⟨v4Prefix ++ [100,64,0,0],cidrMask 10 4⟩

def isPrivateOrLocal (ip : List UInt8) : Bool :=
  let ip := (to4 ip).getD ip
  isLoopback ip || isPrivate ip || isLinkLocalUnicast ip || isLinkLocalMulticast ip ||
    isInterfaceLocalMulticast ip || isMulticast ip || isUnspecified ip || cgnat.contains ip

inductive DialError where
  | unsplit (address : List Char)
  | host (host : List Char)
  deriving DecidableEq

def denyPrivateHosts (address : List Char) : Except DialError Unit :=
  match splitHostPort address with
  | none => .error (.unsplit address)
  | some (host,_) =>
    match parseIP host with
    | none => .error (.host host)
    | some ip => if isPrivateOrLocal ip then .error (.host host) else .ok ()

def networks : List String :=
  ["0.0.0.0/32","10.0.0.0/8","100.64.0.0/10","127.0.0.0/8","169.254.0.0/16","172.16.0.0/12","192.168.0.0/16",
    "224.0.0.0/4","::/128","::1/128","fc00::/7","fe80::/10","ff00::/8"]

def denied : List IPNet := networks.filterMap (fun n => parseCIDR n.toList)

example : denied.length = networks.length := by decide +kernel

section Classified

theorem asLength {host : List Char} {ip : List UInt8} (read : parseIP host = some ip) : ip.length = 16 := by
  obtain ⟨a,_,rfl⟩ := Option.map_eq_some_iff.mp read
  cases a with
  | v4 ip => simp [Addr.as16,v4Prefix]
  | v6 ip zone => simp [Addr.as16]

theorem fourBytes {four : List UInt8} (long : four.length = 4) : ∃ a b c d, four = [a,b,c,d] := by
  match four, long with
  | [a,b,c,d], _ => exact ⟨a,b,c,d,rfl⟩

theorem deniedIs : denied =
    [⟨[0,0,0,0],[255,255,255,255]⟩,⟨[10,0,0,0],[255,0,0,0]⟩,⟨[100,64,0,0],[255,192,0,0]⟩,⟨[127,0,0,0],[255,0,0,0]⟩,
      ⟨[169,254,0,0],[255,255,0,0]⟩,⟨[172,16,0,0],[255,240,0,0]⟩,⟨[192,168,0,0],[255,255,0,0]⟩,⟨[224,0,0,0],[240,0,0,0]⟩,
      ⟨List.replicate 16 0,List.replicate 16 255⟩,⟨List.replicate 15 0 ++ [1],List.replicate 16 255⟩,
      ⟨0xFC::List.replicate 15 0,0xFE::List.replicate 15 0⟩,⟨0xFE::0x80::List.replicate 14 0,0xFF::0xC0::List.replicate 14 0⟩,
      ⟨0xFF::List.replicate 15 0,0xFF::List.replicate 15 0⟩] := by decide +kernel

theorem maskAll (b : UInt8) : b &&& 255 = b := by
  have all : ∀ n < 256, UInt8.ofNat n &&& 255 = UInt8.ofNat n := by decide +kernel
  have here := all b.toNat b.toNat_lt
  rwa [UInt8.ofNat_toNat] at here

variable {a b c d : UInt8} {ip rest : List UInt8}

theorem loopbackFour : isLoopback [a,b,c,d] = (a == 127) := by
  show ([a] == [127]) = (a == 127)
  simp

theorem privateFour : isPrivate [a,b,c,d] = (a == 10 || (a == 172 && b &&& 0xF0 == 16) || (a == 192 && b == 168)) := rfl

theorem linkLocalFour : isLinkLocalUnicast [a,b,c,d] = (a == 169 && b == 254) := rfl

theorem linkMulticastFour : isLinkLocalMulticast [a,b,c,d] = (a == 224 && b == 0 && c == 0) := rfl

theorem ownMulticastFour : isInterfaceLocalMulticast [a,b,c,d] = false := rfl

theorem multicastFour : isMulticast [a,b,c,d] = (a &&& 0xF0 == 0xE0) := rfl

theorem unspecifiedFour : isUnspecified [a,b,c,d] = decide ([a,b,c,d] = [0,0,0,0]) := by
  show (decide (some [a,b,c,d] = some (List.replicate 4 0)) || [a,b,c,d] == List.replicate 16 0) = _
  simp

theorem loopbackSix (six : to4 ip = none) : isLoopback ip = (ip == List.replicate 15 0 ++ [1]) := by
  unfold isLoopback
  rw [six]

theorem privateSix (six : to4 (a::rest) = none) :
    isPrivate (a::rest) = ((a::rest).length == 16 && a &&& 0xFE == 0xFC) := by
  unfold isPrivate
  rw [six]

theorem linkLocalSix (six : to4 (a::b::rest) = none) :
    isLinkLocalUnicast (a::b::rest) = ((a::b::rest).length == 16 && a == 0xFE && b &&& 0xC0 == 0x80) := by
  unfold isLinkLocalUnicast
  rw [six]

theorem linkMulticastSix (six : to4 (a::b::rest) = none) :
    isLinkLocalMulticast (a::b::rest) = ((a::b::rest).length == 16 && a == 0xFF && b &&& 0x0F == 0x02) := by
  unfold isLinkLocalMulticast
  rw [six]

theorem multicastSix (six : to4 (a::rest) = none) : isMulticast (a::rest) = ((a::rest).length == 16 && a == 0xFF) := by
  unfold isMulticast
  rw [six]

theorem unspecifiedSix (six : to4 ip = none) : isUnspecified ip = (ip == List.replicate 16 0) := by
  unfold isUnspecified
  rw [six]
  rfl

theorem fourDenied (four : to4 ip = some [a,b,c,d]) :
    denied.any (fun n => n.contains ip) = isPrivateOrLocal ip := by
  have inner : to4 [a,b,c,d] = some [a,b,c,d] := rfl
  have low : (64 &&& 192 : UInt8) = 64 ∧ (16 &&& 240 : UInt8) = 16 ∧ (224 &&& 240 : UInt8) = 224 := by decide
  rw [deniedIs]
  simp only [List.any_cons,List.any_nil,IPNet.contains,four,inner,Option.getD_some,isPrivateOrLocal,loopbackFour,
    privateFour,linkLocalFour,linkMulticastFour,ownMulticastFour,multicastFour,unspecifiedFour]
  simp only [IPNet.number,to4,masked,cgnat,cidrMask,v4Prefix,List.range,List.range.loop]
  simp [maskAll]
  rw [Bool.eq_iff_iff]
  simp only [Bool.or_eq_true,Bool.and_eq_true,beq_iff_eq,decide_eq_true_eq]
  rw [low.1,low.2.1,low.2.2]
  grind

theorem sixDenied (long : ip.length = 16) (six : to4 ip = none) :
    denied.any (fun n => n.contains ip) = isPrivateOrLocal ip := by
  match ip, long with
  | [a,b,c,d,e,f,g,h,i,j,k,l,m,n,o,p], _ =>
    have low : (252 &&& 254 : UInt8) = 252 ∧ (128 &&& 192 : UInt8) = 128 := by decide
    rw [deniedIs]
    simp only [List.any_cons,List.any_nil,IPNet.contains,six,Option.getD_none,isPrivateOrLocal,loopbackSix six,
      privateSix six,linkLocalSix six,linkMulticastSix six,multicastSix six,unspecifiedSix six,isInterfaceLocalMulticast]
    simp only [IPNet.number,to4,masked,cgnat,cidrMask,v4Prefix,List.range,List.range.loop]
    simp [maskAll]
    rw [Bool.eq_iff_iff]
    simp only [Bool.or_eq_true,Bool.and_eq_true,beq_iff_eq]
    rw [low.1,low.2]
    constructor
    · rintro (zero | one | unique | link | multicast)
      · obtain ⟨rfl,rfl,rfl,rfl,rfl,rfl,rfl,rfl,rfl,rfl,rfl,rfl,rfl,rfl,rfl,rfl⟩ := zero
        decide
      · obtain ⟨rfl,rfl,rfl,rfl,rfl,rfl,rfl,rfl,rfl,rfl,rfl,rfl,rfl,rfl,rfl,rfl⟩ := one
        decide
      · simp [← unique]
      · simp [← link.1,← link.2]
      · simp [← multicast]
    · rintro ((((((one | unique) | link) | local') | own) | multicast) | zero)
      · simp [one]
      · simp [unique]
      · simp [link]
      · simp [local'.1]
      · simp [own.1]
      · simp [multicast]
      · simp [zero]

theorem anyDenied (long : ip.length = 16) :
    denied.any (fun n => n.contains ip) = isPrivateOrLocal ip := by
  cases inside : to4 ip with
  | none => exact sixDenied long inside
  | some four =>
    obtain ⟨a,b,c,d,rfl⟩ := fourBytes (to4Length inside)
    exact fourDenied inside

theorem dialsOutside (address : List Char) : denyPrivateHosts address = .ok () ↔
    ∃ host port ip, splitHostPort address = some (host,port) ∧ parseIP host = some ip ∧
      ∀ n ∈ denied, n.contains ip = false := by
  unfold denyPrivateHosts
  cases split : splitHostPort address with
  | none => simp
  | some parts =>
    obtain ⟨host,port⟩ := parts
    cases read : parseIP host with
    | none => simp [read]
    | some ip =>
      have same := anyDenied (asLength read)
      cases inside : isPrivateOrLocal ip with
      | false =>
        rw [inside,List.any_eq_false] at same
        simpa [inside,read] using same
      | true =>
        rw [inside,List.any_eq_true] at same
        obtain ⟨n,listed,holds⟩ := same
        simp only [read,inside,if_true,reduceCtorEq,false_iff]
        rintro ⟨_,_,_,same,found,outside⟩
        cases same
        cases read.symm.trans found
        exact Bool.noConfusion (holds.symm.trans (outside n listed))

example : denyPrivateHosts "8.8.8.8:443".toList = .ok () := by decide +kernel
example : denyPrivateHosts "[::ffff:100.64.3.1]:443".toList = .error (.host "::ffff:100.64.3.1".toList) := by
  decide +kernel

end Classified
end DevkitCommon.Httpx.PrivateHosts
