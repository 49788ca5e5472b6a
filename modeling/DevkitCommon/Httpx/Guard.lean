import DevkitCommon.Lib.Breaker
import DevkitCommon.Lib.Machine

/-! The guard between resty and the transport of a provider: a semaphore, then a circuit
breaker. Every attempt passes it, the retries as attempts of their own. When a slot comes free,
what the transport answers and how time passes stand in the actions. -/
namespace DevkitCommon.Httpx
open Breaker

def defaultMaxConcurrent : Int := 64
def defaultBreakerFailures : Int := 5
def second : Int := 1000000000
def defaultBreakerOpenFor : Int := 30*second

structure Provider where
  maxConcurrent : Option Int
  breakerFailures : Option Int
  breakerOpenFor : Int
  deriving DecidableEq, Repr

def maxConcurrent (p : Provider) : Int := (p.maxConcurrent.map (max 0)).getD defaultMaxConcurrent

def breakerFailures (p : Provider) : Int := (p.breakerFailures.map (max 0)).getD defaultBreakerFailures

/- A value of an error chain, as errors.As and errors.Is look at it. A network one is a
net.Error; every other is none, an EOF, a certificate refused and a cancellation among them. -/
inductive Cause where
  | network (text : String)
  | deadlineExceeded
  | errOpenState
  | errTooManyRequests
  | other (text : String)
  deriving DecidableEq, Repr

def Cause.netError : Cause → Bool
  | .network _ | .deadlineExceeded => true
  | _ => false

inductive Err where
  | plain (c : Cause)
  | wraps (c : Cause) (inner : Err)
  | joins (left right : Err)
  deriving DecidableEq, Repr

def Err.any (q : Cause → Bool) : Err → Bool
  | .plain c => q c
  | .wraps c inner => q c || inner.any q
  | .joins left right => left.any q || right.any q

def Err.is (e : Err) (c : Cause) : Bool := e.any (· == c)

def isNetworkError (err : Err) : Bool := err.any Cause.netError || err.is .deadlineExceeded

inductive Outcome where
  | response (status : Nat)
  | fails (err : Err)
  | panics
  deriving DecidableEq, Repr

def tooManyRequests : Nat := 429

inductive Fault where
  | failedStatus (status : Nat)
  | transport (err : Err)
  | refused (r : Refusal)
  deriving DecidableEq, Repr

def attempt : Outcome → Option (Except Fault Nat)
  | .response status =>
    if 500 ≤ status ∨ status = tooManyRequests then some (.error (.failedStatus status)) else some (.ok status)
  | .fails err => some (.error (.transport err))
  | .panics => none

def isSuccessful : Except Fault Nat → Bool
  | .ok _ => true
  | .error (.failedStatus _) => false
  | .error (.transport err) => !isNetworkError err
  | .error (.refused _) => true

/- A panic that goes through Execute counts as a failure. -/
def success (o : Outcome) : Bool := (attempt o).elim false isSuccessful

inductive Returned where
  | response (status : Nat)
  | fails (err : Err)
  | errCircuitOpen
  | errTooManyInFlight
  | panics
  deriving DecidableEq, Repr

def answer : Except Fault Nat → Returned
  | .ok status | .error (.failedStatus status) => .response status
  | .error (.refused _) => .errCircuitOpen
  | .error (.transport err) =>
    if err.is .errOpenState || err.is .errTooManyRequests then .errCircuitOpen else .fails err

def threshold (p : Provider) : Nat := (breakerFailures p).toNat % 4294967296

/- Half-open there is one probe. A timeout of zero or less is gobreaker's minute. -/
def newSettings (p : Provider) : Settings where
  maxRequests := 1
  timeout :=
    let configured := if p.breakerOpenFor = 0 then defaultBreakerOpenFor else p.breakerOpenFor
    (if configured ≤ 0 then 60*second else configured).toNat
  readyToTrip n := decide (threshold p ≤ n.consecutiveFailures)

/- The ticket is the generation the breaker admitted the attempt in, none without a breaker. -/
inductive Point where
  | waiting
  | holding
  | sent (ticket : Option Nat)
  | returned (r : Returned)
  deriving DecidableEq, Repr

structure State where
  now : Nat
  cb : Option Circuit
  sem : Nat
  attempts : List Point
  deriving DecidableEq, Repr

def newGuard (p : Provider) (now : Nat) : State :=
  ⟨now,if 0 < breakerFailures p then some {} else none,0,[]⟩

inductive Action where
  | tick (d : Nat)
  | roundTrip
  | acquire (i : Nat)
  | done (i : Nat)
  | execute (i : Nat)
  | finish (i : Nat) (o : Outcome)
  deriving DecidableEq, Repr

def State.setAttempt (s : State) (i : Nat) (p : Point) : State := {s with attempts := s.attempts.set i p}

def State.leave (s : State) (i : Nat) (r : Returned) : State := {s.setAttempt i (.returned r) with sem := s.sem-1}

def step (p : Provider) (s : State) : Action → Option State
  | .tick d => some {s with now := s.now+d}
  | .roundTrip => some {s with attempts := s.attempts ++ [.waiting]}
  | .acquire i => do
    let .waiting ← s.attempts[i]? | none
    if maxConcurrent p ≤ 0 ∨ (s.sem : Int) < maxConcurrent p then
      some ({s with sem := s.sem+1}.setAttempt i .holding)
    else none
  | .done i => do
    let .waiting ← s.attempts[i]? | none
    if 0 < maxConcurrent p then some (s.setAttempt i (.returned .errTooManyInFlight)) else none
  | .execute i => do
    let .holding ← s.attempts[i]? | none
    match s.cb with
    | none => some (s.setAttempt i (.sent none))
    | some c =>
      match beforeRequest (newSettings p) c s.now with
      | (c,.error r) => some ({s with cb := some c}.leave i (answer (.error (.refused r))))
      | (c,.ok ticket) => some ({s with cb := some c}.setAttempt i (.sent (some ticket)))
  | .finish i o => do
    let .sent ticket ← s.attempts[i]? | none
    let cb := match s.cb,ticket with
      | some c,some ticket => some (afterRequest (newSettings p) c s.now ticket (success o))
      | cb,_ => cb
    some ({s with cb := cb}.leave i ((attempt o).elim .panics answer))

end DevkitCommon.Httpx
