import Mathlib.Data.List.Basic

/-! MD5 of a list of bytes, with words of 32 bits as natural numbers. -/
namespace DevkitCommon.MD5

def word : Nat := 4294967296

def rotate (x n : Nat) : Nat := (x <<< n ||| x >>> (32-n)) % word

/- The 64 constants, floor(2^32 |sin(i+1)|). -/
def constants : List Nat :=
  [0xd76aa478,0xe8c7b756,0x242070db,0xc1bdceee,0xf57c0faf,0x4787c62a,0xa8304613,0xfd469501,
   0x698098d8,0x8b44f7af,0xffff5bb1,0x895cd7be,0x6b901122,0xfd987193,0xa679438e,0x49b40821,
   0xf61e2562,0xc040b340,0x265e5a51,0xe9b6c7aa,0xd62f105d,0x02441453,0xd8a1e681,0xe7d3fbc8,
   0x21e1cde6,0xc33707d6,0xf4d50d87,0x455a14ed,0xa9e3e905,0xfcefa3f8,0x676f02d9,0x8d2a4c8a,
   0xfffa3942,0x8771f681,0x6d9d6122,0xfde5380c,0xa4beea44,0x4bdecfa9,0xf6bb4b60,0xbebfbc70,
   0x289b7ec6,0xeaa127fa,0xd4ef3085,0x04881d05,0xd9d4d039,0xe6db99e5,0x1fa27cf8,0xc4ac5665,
   0xf4292244,0x432aff97,0xab9423a7,0xfc93a039,0x655b59c3,0x8f0ccc92,0xffeff47d,0x85845dd1,
   0x6fa87e4f,0xfe2ce6e0,0xa3014314,0x4e0811a1,0xf7537e82,0xbd3af235,0x2ad7d2bb,0xeb86d391]

def shifts : List (List Nat) := [[7,12,17,22],[5,9,14,20],[4,11,16,23],[6,10,15,21]]

structure Digest where
  a : Nat
  b : Nat
  c : Nat
  d : Nat
  deriving DecidableEq, Repr

def negate (x : Nat) : Nat := word-1-x

def mix (i : Nat) (h : Digest) : Nat :=
  match i/16 with
  | 0 => h.b &&& h.c ||| negate h.b &&& h.d
  | 1 => h.d &&& h.b ||| negate h.d &&& h.c
  | 2 => h.b ^^^ h.c ^^^ h.d
  | _ => h.c ^^^ (h.b ||| negate h.d)

def pick (i : Nat) : Nat :=
  match i/16 with
  | 0 => i
  | 1 => (5*i+1) % 16
  | 2 => (3*i+5) % 16
  | _ => 7*i % 16

def operation (block : List Nat) (h : Digest) (i : Nat) : Digest :=
  let f := (mix i h + h.a + constants.getD i 0 + block.getD (pick i) 0) % word
  ⟨h.d,(h.b + rotate f ((shifts.getD (i/16) []).getD (i%4) 0)) % word,h.b,h.c⟩

def compress (h : Digest) (block : List Nat) : Digest :=
  let t := (List.range 64).foldl (operation block) h
  ⟨(h.a+t.a) % word,(h.b+t.b) % word,(h.c+t.c) % word,(h.d+t.d) % word⟩

def words : List UInt8 → List Nat
  | a::b::c::d::rest => (a.toNat + 256*(b.toNat + 256*(c.toNat + 256*d.toNat)))::words rest
  | _ => []

def blocks : Nat → List Nat → List (List Nat)
  | 0,_ => []
  | n+1,ws => ws.take 16::blocks n (ws.drop 16)

def lowFirst : Nat → Nat → List UInt8
  | 0,_ => []
  | n+1,x => UInt8.ofNat x::lowFirst n (x/256)

def padded (bytes : List UInt8) : List UInt8 :=
  bytes ++ 0x80::List.replicate ((119 - bytes.length % 64) % 64) 0 ++ lowFirst 8 (8*bytes.length)

def hash (bytes : List UInt8) : Digest :=
  let ws := words (padded bytes)
  (blocks (ws.length/16) ws).foldl compress ⟨0x67452301,0xefcdab89,0x98badcfe,0x10325476⟩

def Digest.bytes (h : Digest) : List UInt8 := lowFirst 4 h.a ++ lowFirst 4 h.b ++ lowFirst 4 h.c ++ lowFirst 4 h.d

def sum (bytes : List UInt8) : List UInt8 := (hash bytes).bytes

def hexDigit (n : Nat) : Char := if n < 10 then Char.ofNat (48+n) else Char.ofNat (87+n)
def hex (bytes : List UInt8) : String :=
  String.ofList (bytes.flatMap (fun b => [hexDigit (b.toNat/16),hexDigit (b.toNat%16)]))

example : hex (sum [97,98,99]) = "900150983cd24fb0d6963f7d28e17f72" := by decide +kernel

end DevkitCommon.MD5
