import DevkitCommon.Lib.Machine
import DevkitCommon.Lib.Redis

/-! WithLock by any number of callers on one Redis, step by step: the tries for the key,
fn with its context, the keeper that extends the key in the background, the release. The
ticks of the keeper, how long a script is on its way, what Redis answers and how fn ends
stand in the action. The clock is in milliseconds, durations are nanoseconds. -/
namespace DevkitCommon.Redisx
open Machine Redis

structure Env where
  redis : Bool

structure Request where
  name : String
  ttl : Int
  wait : Int
  retry : Int
  deriving DecidableEq, Repr

def Request.lockTTL (r : Request) : Int := if r.ttl < second then 10*second else r.ttl
def Request.retryEvery (r : Request) : Int := if 0 < r.retry then r.retry else 50*millisecond

def Request.lasts (r : Request) : Int := r.lockTTL / millisecond

inductive Result where
  | noRedis | noName | redis | locked | ctx
  | done (failed : Bool)
  | lost
  deriving DecidableEq, Repr

/- asked: Redis is done with the SETNX and its answer is on the way; none is an error. -/
inductive Point where
  | setNX
  | asked (res : Option Bool)
  | pause (until' : Int)
  | running
  | closing (failed : Bool)
  | release (failed : Bool)
  | returned (r : Result)
  | crashed
  deriving DecidableEq, Repr

/- The keeper: waiting for its tick, with a script on its way, with the script's answer
(none is an error), and over. -/
inductive Keeper where
  | idle
  | sent
  | answered (res : Option Bool)
  | over
  deriving DecidableEq, Repr

/- fired is the keeper's last tick; cancelled is fn's context, which comes from the
caller's. extended records when Redis last ran this call's SETNX
or an extend of it that found its token; no step reads it. -/
structure Call where
  request : Request
  start : Int
  point : Point
  keeper : Keeper
  fired : Int
  ctxDone : Bool
  cancelled : Bool
  lost : Bool
  extended : Int
  deriving DecidableEq, Repr

structure State where
  clock : Int
  keys : Store String Nat
  calls : List Call

def State.init (clock : Int) : State := ⟨clock,fun _ => none,[]⟩

def State.setCall (s : State) (c : Nat) (call : Call) : State := {s with calls := s.calls.set c call}

inductive Action where
  | tick (d : Nat)
  | call (r : Request)
  | setNX (c : Nat) (reply : Reply)
  | answer (c : Nat)
  | wake (c : Nat)
  | giveUp (c : Nat)
  | fire (c : Nat)
  | extend (c : Nat) (reply : Reply)
  | notice (c : Nat)
  | ctxDone (c : Nat)
  | finish (c : Nat) (failed : Bool)
  | stop (c : Nat)
  | release (c : Nat) (reply : Reply)
  | crash (c : Nat)
  | drop (name : String)
  deriving DecidableEq, Repr

section Steps
variable (env : Env)

def first (r : Request) : Point :=
  if env.redis = false then .returned .noRedis
  else if r.name = "" then .returned .noName
  else .setNX

def tried (s : State) (call : Call) : Option Bool → Point
  | none => .returned .redis
  | some true => .running
  | some false =>
    if call.request.wait = 0 ∨ call.start*millisecond + call.request.wait < s.clock*millisecond then
      .returned .locked
    else .pause (s.clock + max 1 (call.request.retryEvery / millisecond))

def step (s : State) : Action → Option State
  | .tick d => some {s with clock := s.clock + d}
  | .call r => some {s with
      calls := s.calls ++ [⟨r,s.clock,first env r,.idle,s.clock,false,false,false,s.clock⟩]}
  | .setNX c reply => do
    let call ← s.calls[c]?
    if call.point = .setNX then
      let free := (get s.keys s.clock call.request.name).isNone
      let res := if reply = .ok then some free else none
      let keys := if reply.ran then setNX s.keys s.clock call.request.name c call.request.lockTTL else s.keys
      some ({s with keys := keys}.setCall c {call with
        point := .asked res
        extended := s.clock})
    else none
  | .answer c => do
    let call ← s.calls[c]?
    match call.point with
    | .asked res => some (s.setCall c {call with point := tried s call res,fired := s.clock})
    | _ => none
  | .wake c => do
    let call ← s.calls[c]?
    match call.point with
    | .pause until' => if until' ≤ s.clock then some (s.setCall c {call with point := .setNX}) else none
    | _ => none
  | .giveUp c => do
    let call ← s.calls[c]?
    match call.point with
    | .pause _ => if call.ctxDone then some (s.setCall c {call with point := .returned .ctx}) else none
    | _ => none
  | .fire c => do
    let call ← s.calls[c]?
    match call.point,call.keeper with
    | .running,.idle | .closing _,.idle => some (s.setCall c {call with keeper := .sent,fired := s.clock})
    | _,_ => none
  | .extend c reply => do
    let call ← s.calls[c]?
    if call.keeper = .sent then
      let (keys,mine) := expireIf s.keys s.clock call.request.name c call.request.lockTTL
      let res := if reply = .ok then some mine else none
      if reply.ran then
        some ({s with keys := keys}.setCall c {call with
          keeper := .answered res
          extended := if mine then s.clock else call.extended})
      else some (s.setCall c {call with keeper := .answered res})
    else none
  | .notice c => do
    let call ← s.calls[c]?
    match call.keeper with
    -- the keeper cancels fn's context only when the script says that the key is not its own
    | .answered (some false) => some (s.setCall c {call with keeper := .over,lost := true,cancelled := true})
    | .answered _ => some (s.setCall c {call with keeper := .idle})
    | _ => none
  | .ctxDone c => do
    let call ← s.calls[c]?
    some (s.setCall c {call with ctxDone := true,cancelled := true})
  | .finish c failed => do
    let call ← s.calls[c]?
    if call.point = .running then some (s.setCall c {call with point := .closing failed}) else none
  | .stop c => do
    let call ← s.calls[c]?
    match call.point,call.keeper with
    | .closing failed,.idle => some (s.setCall c {call with keeper := .over,point := .release failed})
    | .closing _,.over => some (s.setCall c {call with point := .returned .lost})
    | _,_ => none
  | .release c reply => do
    let call ← s.calls[c]?
    match call.point with
    | .release failed =>
      let keys := if reply.ran then delIf s.keys s.clock call.request.name c else s.keys
      some ({s with keys := keys}.setCall c {call with point := .returned (.done failed)})
    | _ => none
  | .crash c => do
    let call ← s.calls[c]?
    match call.point with
    | .returned _ | .crashed => none
    -- a script that is on its way still reaches Redis
    | _ => some (s.setCall c {call with point := .crashed})
  | .drop name => some {s with keys := del s.keys name}

end Steps
end DevkitCommon.Redisx
