import Mathlib.Data.List.Basic

/-! SHA-256 of a list of bytes, with words of 32 bits as natural numbers, and the keyed hash
made of it. -/
namespace DevkitCommon.SHA256

def word : Nat := 4294967296

def rotate (x n : Nat) : Nat := (x >>> n ||| x <<< (32-n)) % word

/- The first 32 bits of the fractional parts of the cube roots of the first 64 primes. -/
def constants : List Nat :=
  [0x428a2f98,0x71374491,0xb5c0fbcf,0xe9b5dba5,0x3956c25b,0x59f111f1,0x923f82a4,0xab1c5ed5,
   0xd807aa98,0x12835b01,0x243185be,0x550c7dc3,0x72be5d74,0x80deb1fe,0x9bdc06a7,0xc19bf174,
   0xe49b69c1,0xefbe4786,0x0fc19dc6,0x240ca1cc,0x2de92c6f,0x4a7484aa,0x5cb0a9dc,0x76f988da,
   0x983e5152,0xa831c66d,0xb00327c8,0xbf597fc7,0xc6e00bf3,0xd5a79147,0x06ca6351,0x14292967,
   0x27b70a85,0x2e1b2138,0x4d2c6dfc,0x53380d13,0x650a7354,0x766a0abb,0x81c2c92e,0x92722c85,
   0xa2bfe8a1,0xa81a664b,0xc24b8b70,0xc76c51a3,0xd192e819,0xd6990624,0xf40e3585,0x106aa070,
   0x19a4c116,0x1e376c08,0x2748774c,0x34b0bcb5,0x391c0cb3,0x4ed8aa4a,0x5b9cca4f,0x682e6ff3,
   0x748f82ee,0x78a5636f,0x84c87814,0x8cc70208,0x90befffa,0xa4506ceb,0xbef9a3f7,0xc67178f2]

structure Digest where
  a : Nat
  b : Nat
  c : Nat
  d : Nat
  e : Nat
  f : Nat
  g : Nat
  h : Nat
  deriving DecidableEq, Repr

/- One more word of the schedule, which is kept with its newest word first. -/
def extend (ws : List Nat) : List Nat :=
  let x := ws.getD 14 0
  let y := ws.getD 1 0
  let low := rotate x 7 ^^^ rotate x 18 ^^^ x >>> 3
  let high := rotate y 17 ^^^ rotate y 19 ^^^ y >>> 10
  ((high + ws.getD 6 0 + low + ws.getD 15 0) % word)::ws

def schedule (block : List Nat) : List Nat := ((List.range 48).foldl (fun ws _ => extend ws) block.reverse).reverse

def operation (s : Digest) (kw : Nat × Nat) : Digest :=
  let choose := s.e &&& s.f ^^^ (word-1-s.e) &&& s.g
  let t := s.h + (rotate s.e 6 ^^^ rotate s.e 11 ^^^ rotate s.e 25) + choose + kw.1 + kw.2
  let most := s.a &&& s.b ^^^ s.a &&& s.c ^^^ s.b &&& s.c
  let u := (rotate s.a 2 ^^^ rotate s.a 13 ^^^ rotate s.a 22) + most
  ⟨(t+u) % word,s.a,s.b,s.c,(s.d+t) % word,s.e,s.f,s.g⟩

def compress (s : Digest) (block : List Nat) : Digest :=
  let t := (constants.zip (schedule block)).foldl operation s
  ⟨(s.a+t.a) % word,(s.b+t.b) % word,(s.c+t.c) % word,(s.d+t.d) % word,
    (s.e+t.e) % word,(s.f+t.f) % word,(s.g+t.g) % word,(s.h+t.h) % word⟩

def words : List UInt8 → List Nat
  | a::b::c::d::rest => (((a.toNat*256 + b.toNat)*256 + c.toNat)*256 + d.toNat)::words rest
  | _ => []

def blocks : Nat → List Nat → List (List Nat)
  | 0,_ => []
  | n+1,ws => ws.take 16::blocks n (ws.drop 16)

def highFirst : Nat → Nat → List UInt8
  | 0,_ => []
  | n+1,x => highFirst n (x/256) ++ [UInt8.ofNat x]

def padded (bytes : List UInt8) : List UInt8 :=
  bytes ++ 0x80::List.replicate ((119 - bytes.length % 64) % 64) 0 ++ highFirst 8 (8*bytes.length)

def hash (bytes : List UInt8) : Digest :=
  let ws := words (padded bytes)
  (blocks (ws.length/16) ws).foldl compress
    ⟨0x6a09e667,0xbb67ae85,0x3c6ef372,0xa54ff53a,0x510e527f,0x9b05688c,0x1f83d9ab,0x5be0cd19⟩

def Digest.bytes (s : Digest) : List UInt8 :=
  [s.a,s.b,s.c,s.d,s.e,s.f,s.g,s.h].flatMap (highFirst 4)

def sum (bytes : List UInt8) : List UInt8 := (hash bytes).bytes

def keyPad (key : List UInt8) (b : UInt8) : List UInt8 :=
  let short := if 64 < key.length then sum key else key
  (short ++ List.replicate (64-short.length) 0).map (fun k => k ^^^ b)

def hmac (key message : List UInt8) : List UInt8 :=
  sum (keyPad key 0x5c ++ sum (keyPad key 0x36 ++ message))

theorem sumSize (bytes : List UInt8) : (sum bytes).length = 32 := rfl

theorem hmacSize (key message : List UInt8) : (hmac key message).length = 32 := sumSize _

example : (sum [97,98,99]).take 8 = [0xba,0x78,0x16,0xbf,0x8f,0x01,0xcf,0xea] := by decide
example : (hmac [0x4a,0x65,0x66,0x65] "what do ya want for nothing?".toUTF8.toList).take 8 =
    [0x5b,0xdc,0xc1,0x46,0xbf,0x60,0x75,0x4e] := by decide +kernel

end DevkitCommon.SHA256
