import DevkitCommon.Lib.Machine
import DevkitCommon.Lib.Redis
import Mathlib.Data.Nat.Bitwise

/-! The generators of one service on one Redis: New leases a number, keep renews it, takes
it again or moves to another, Next makes ids without asking anyone, Close gives the number
back. One clock for all, in milliseconds since the epoch. When a tick comes, what Redis
answers and when a step of the keeper is taken stand in the action. -/
namespace DevkitCommon.Idx
open Machine Redis

def lowBits : Nat := 12
def leaseTTL : Int := 90*second
def defaultInstanceBits : Int := 5

structure Config where
  instanceBits : Int
  deriving DecidableEq, Repr

def Config.bits (cfg : Config) : Int := if cfg.instanceBits = 0 then defaultInstanceBits else cfg.instanceBits
def Config.valid (cfg : Config) : Bool := decide (1 ≤ cfg.bits ∧ cfg.bits ≤ 10)

def Config.seqBits (cfg : Config) : Nat := lowBits - cfg.bits.toNat
def Config.maxInstance (cfg : Config) : Nat := 2 ^ cfg.bits.toNat - 1
def Config.maxSeq (cfg : Config) : Nat := 2 ^ cfg.seqBits - 1

/- Where New and then the keeper stand: the loop of lease at a number, the wait for a tick,
the renew script, the SETNX of the own number, the loop again, and the move under the
mutex. failed: New has returned an error. -/
inductive Point where
  | leasing (n : Nat)
  | idle
  | renew
  | retake
  | searching (n : Nat)
  | moves (n : Nat)
  | stopped
  | failed
  | crashed
  deriving DecidableEq, Repr

inductive Closing where
  | no | stopping | releasing | closed
  deriving DecidableEq, Repr

/- cfg is the configuration of the replica whose New made it. -/
structure Generator where
  cfg : Config
  number : Nat
  lastMs : Nat
  seq : Nat
  point : Point
  closing : Closing
  deriving DecidableEq, Repr

def Point.ready : Point → Bool
  | .leasing _ | .failed | .crashed => false
  | _ => true

structure Issue where
  id : Nat
  owner : Nat
  cfg : Config
  ms : Nat
  number : Nat
  seq : Nat
  deriving DecidableEq, Repr

/- The value of a lease key is the number of the generator in it. taken records who took
a number last, and when; issued the ids; no step reads them. -/
structure State where
  clock : Nat
  keys : Store Nat Nat
  gens : List Generator
  taken : Nat → Option (Nat × Nat)
  issued : List Issue

def State.init (clock : Nat) : State := ⟨clock,fun _ => none,[],fun _ => none,[]⟩

def State.setGen (s : State) (g : Nat) (gen : Generator) : State := {s with gens := s.gens.set g gen}

inductive Action where
  | tick (d : Nat)
  | new (cfg : Config)
  | setNX (g : Nat) (reply : Reply)
  | fire (g : Nat)
  | renew (g : Nat) (reply : Reply)
  | move (g : Nat)
  | next (g : Nat)
  | close (g : Nat)
  | stop (g : Nat)
  | release (g : Nat) (reply : Reply)
  | crash (g : Nat)
  deriving DecidableEq, Repr

section Steps

def compose (cfg : Config) (ms number seq : Nat) : Nat := ms <<< lowBits ||| number <<< cfg.seqBits ||| seq

/- Next at a reading of the clock: the id's parts, or none while it waits for the next
millisecond. A clock behind the last id is waited for. -/
def next (now : Nat) (gen : Generator) : Option (Nat × Nat) :=
  let now := max now gen.lastMs
  if now = gen.lastMs then
    if gen.seq + 1 ≤ gen.cfg.maxSeq then some (now,gen.seq + 1) else none
  else some (now,0)

def Generator.tries (gen : Generator) : Option Nat :=
  match gen.point with
  | .leasing n | .searching n => some n
  | .retake => some gen.number
  | _ => none

def further (cfg : Config) (n : Nat) (again : Nat → Point) (none : Point) : Point :=
  if n + 1 ≤ cfg.maxInstance then again (n + 1) else none

def tried (gen : Generator) (reply : Reply) (taken : Bool) : Generator :=
  match gen.point with
  | .leasing n =>
    if reply ≠ .ok then {gen with point := .failed}
    else if taken then {gen with point := further gen.cfg n .leasing .failed}
    else {gen with number := n,point := .idle}
  | .searching n =>
    if reply ≠ .ok then {gen with point := .idle}
    else if taken then {gen with point := further gen.cfg n .searching .idle}
    else {gen with point := .moves n}
  | .retake =>
    if reply = .ok ∧ taken then {gen with point := .searching 0} else {gen with point := .idle}
  | _ => gen

def step (s : State) : Action → Option State
  | .tick d => some {s with clock := s.clock + d}
  | .new cfg => some {s with
      gens := s.gens ++ [⟨cfg,0,0,0,if cfg.valid then .leasing 0 else .failed,.no⟩]}
  | .setNX g reply => do
    let gen ← s.gens[g]?
    let n ← gen.tries
    let taken := (get s.keys s.clock n).isSome
    let s := if reply.ran ∧ taken = false then
        {s with keys := setNX s.keys s.clock n g leaseTTL,taken := Function.update s.taken n (some (g,s.clock))}
      else s
    some (s.setGen g (tried gen reply taken))
  | .fire g => do
    let gen ← s.gens[g]?
    if gen.point = .idle then some (s.setGen g {gen with point := .renew}) else none
  | .renew g reply => do
    let gen ← s.gens[g]?
    if gen.point = .renew then
      let (keys,mine) := expireIf s.keys s.clock gen.number g leaseTTL
      let s := if reply.ran then {s with keys := keys} else s
      some (s.setGen g {gen with point := if reply = .ok ∧ mine = false then .retake else .idle})
    else none
  | .move g => do
    let gen ← s.gens[g]?
    match gen.point with
    | .moves n => some (s.setGen g {gen with number := n,point := .idle})
    | _ => none
  | .next g => do
    let gen ← s.gens[g]?
    let (ms,seq) ← next s.clock gen
    if gen.point.ready then
      some {s.setGen g {gen with lastMs := ms,seq := seq} with
        issued := s.issued ++ [⟨compose gen.cfg ms gen.number seq,g,gen.cfg,ms,gen.number,seq⟩]}
    else none
  | .close g => do
    let gen ← s.gens[g]?
    if gen.point.ready then
      match gen.closing with
      | .no => some (s.setGen g {gen with closing := .stopping})
      | .closed => some (s.setGen g {gen with closing := .releasing})
      | _ => none
    else none
  | .stop g => do
    let gen ← s.gens[g]?
    if gen.point = .idle ∧ gen.closing = .stopping then
      some (s.setGen g {gen with point := .stopped,closing := .releasing})
    else none
  | .release g reply => do
    let gen ← s.gens[g]?
    if gen.closing = .releasing ∧ gen.point ≠ .crashed then
      let s := if reply.ran then {s with keys := delIf s.keys s.clock gen.number g} else s
      some (s.setGen g {gen with closing := .closed})
    else none
  | .crash g => do
    let gen ← s.gens[g]?
    if gen.point.ready ∨ gen.tries.isSome then some (s.setGen g {gen with point := .crashed}) else none

end Steps
end DevkitCommon.Idx
