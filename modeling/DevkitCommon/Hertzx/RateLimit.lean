import DevkitCommon.Hertzx.Document
import DevkitCommon.Lib.Counter
import DevkitCommon.Lib.Machine

/-! The request-rate limits of the guard, step by step: a request is counted against its
client's limit and then against its route's, in Redis or, where the pipeline fails, in the
replica's own counters. A call of over is one step, at the time that it reads. -/
namespace DevkitCommon.Hertzx.Guard
open Machine Redis Counter

structure Config where
  service : String
  redis : Bool
  doc : Document
  perIP : Rate
  parsed : perIP = ⟨600,60*second⟩ ∨ ∃ text, parseRate text = .ok perIP

structure Window where
  start : Int
  n : Nat
  deriving DecidableEq, Repr

/- A call of over: the number is what it has been given by the counter, and answered says
whether that was Redis. No step reads it. -/
structure Count where
  key : String
  rate : Rate
  start : Int
  answered : Bool
  number : Nat
  deriving DecidableEq, Repr

/- The clock is in nanoseconds, Redis has its milliseconds. -/
structure Counters where
  clock : Int
  redis : Store String Nat
  locals : Table Window
  log : List Count

inductive Point where
  | service
  | route
  | next
  | rejected (scope : String) (retry : Int)
  deriving DecidableEq, Repr

structure Request where
  method : String
  path : String
  ip : String
  point : Point
  deriving DecidableEq, Repr

structure State where
  counters : Counters
  requests : List Request

def State.init (clock : Int) : State := ⟨⟨clock,fun _ => none,∅,[]⟩,[]⟩

def State.setRequest (s : State) (i : Nat) (r : Request) : State := {s with requests := s.requests.set i r}

/- A pipeline that fails may have run in part. -/
inductive Pipeline where
  | answered
  | failed (incr expire : Bool)
  deriving DecidableEq, Repr

def Pipeline.incr : Pipeline → Bool
  | .answered => true
  | .failed incr _ => incr

def Pipeline.expire : Pipeline → Bool
  | .answered => true
  | .failed _ expire => expire

section Over

def truncate (now window : Int) : Int := now - now%window

def redisKey (service key : String) (start : Int) : String :=
  "rl:" ++ service ++ ":" ++ key ++ ":" ++ Text.formatInt (start/second)

def exec (store : Store String Nat) (now : Int) (rk : String) (ttl : Int) (reply : Pipeline) : Store String Nat :=
  let store := if reply.incr then incr store now rk else store
  if reply.expire then pexpire store now rk ttl else store

def prune (now : Int) (locals : Table Window) : Table Window :=
  ⟨locals.entries.filter (fun e => decide (now - e.2.start ≤ 3600*second)),locals.nodupKeys.sublist List.filter_sublist⟩

def countLocal (now : Int) (locals : Table Window) (key : String) (start : Int) : Table Window × Nat :=
  match (locals.lookup key).filter (fun w => w.start = start) with
  | some w => (locals.insert key ⟨start,w.n+1⟩,w.n+1)
  | none => ((if 10000 < locals.entries.length then prune now locals else locals).insert key ⟨start,1⟩,1)

variable (cfg : Config)

def overLimit (s : Counters) (key : String) (rate : Rate) (reply : Pipeline) : Counters × Int :=
  let start := truncate s.clock rate.window
  let left := start + rate.window - s.clock
  let rk := redisKey cfg.service key start
  let now := s.clock/millisecond
  let store := if cfg.redis then exec s.redis now rk (rate.window + second) reply else s.redis
  if cfg.redis ∧ reply = .answered then
    let n := (Redis.get (incr s.redis now rk) now rk).getD 0
    ({s with redis := store,log := s.log ++ [⟨key,rate,start,true,n⟩]},if rate.n < n then left else 0)
  else
    let (locals,n) := countLocal s.clock s.locals key start
    ({s with redis := store,locals := locals,log := s.log ++ [⟨key,rate,start,false,n⟩]},if rate.n < n then left else 0)

end Over

def Request.serviceKey (r : Request) : String := "ip:" ++ r.ip
def Request.routeKey (r : Request) : String := "route:" ++ r.path ++ ":" ++ r.ip

inductive Action where
  | tick (d : Nat)
  | arrive (method path ip : String)
  | service (i : Nat) (reply : Pipeline)
  | route (i : Nat) (reply : Pipeline)
  deriving DecidableEq, Repr

variable (cfg : Config)

def counted (s : State) (i : Nat) (r : Request) (key : String) (rate : Rate) (reply : Pipeline) (scope : String)
    (after : Point) : State :=
  let (counters,retry) := overLimit cfg s.counters key rate reply
  {s with counters := counters}.setRequest i {r with point := if 0 < retry then .rejected scope retry else after}

def step (s : State) : Action → Option State
  | .tick d => some {s with counters := {s.counters with clock := s.counters.clock + d}}
  | .arrive method path ip =>
    some {s with requests := s.requests ++ [⟨method,path,ip,if isFrameworkPath path then .next else .service⟩]}
  | .service i reply => do
    let r ← s.requests[i]?
    if r.point = .service then
      some (if cfg.perIP.off then s.setRequest i {r with point := .route}
        else counted cfg s i r r.serviceKey cfg.perIP reply "service" .route)
    else none
  | .route i reply => do
    let r ← s.requests[i]?
    if r.point = .route then
      some (match guardRate cfg.doc r.method r.path with
        | none => s.setRequest i {r with point := .next}
        | some rate => counted cfg s i r r.routeKey rate reply "route" .next)
    else none

end DevkitCommon.Hertzx.Guard
