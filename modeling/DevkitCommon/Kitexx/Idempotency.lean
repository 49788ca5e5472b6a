import DevkitCommon.Lib.Machine
import DevkitCommon.Lib.Redis

/-! The Idempotency middleware around the handlers of one service, on any number of
replicas and one Redis: the claim of the key, the handler, the release or the kept result.
What Redis answers, how a handler ends, when a request's context ends and which call goes
on stand in the action. -/
namespace DevkitCommon.Kitexx
open Machine Redis

def codeRequestInProgress : Int := 1002
def codeRequestIDRequired : Int := 1003
def codeIdempotencyUnavailable : Int := 5002
def idempotencyTTL : Int := 24*3600*second

structure Method where
  name : String
  plain : ':' ∉ name.toList
  deriving DecidableEq

structure Login where
  uid : Int
  positive : 0 < uid
  deriving DecidableEq

def idempotencyKey (service : String) (method : Method) (requestId : String) (login : Option Login) : String :=
  let key := "idem:" ++ service ++ ":" ++ method.name ++ ":" ++ requestId
  match login with
  | some l => key ++ ":u" ++ l.uid.repr
  | none => key

structure Request where
  method : Method
  requestId : Option String
  login : Option Login
  deriving DecidableEq

inductive Outcome (ρ : Type) where
  | error | biz
  | ok (r : ρ)
  deriving DecidableEq, Repr

/- What is under a key. The claim's text is the same for all calls and no JSON; here it
names the call that made it. -/
inductive Kept (δ : Type) where
  | pending (owner : Nat)
  | result (data : δ)
  deriving DecidableEq, Repr

inductive Answer (ρ : Type) where
  | passed (o : Outcome ρ)
  | refused (code : Int) (message : String)
  | failed (o : Outcome ρ)
  | own (r : ρ)
  | replayed (r : ρ)
  deriving DecidableEq, Repr

inductive Point (ρ δ : Type) where
  | through
  | setNX
  | get
  | running
  | del (o : Outcome ρ)
  | store (r : ρ) (data : δ)
  | returned (a : Answer ρ)
  | crashed
  deriving DecidableEq, Repr

/- outcome records how the call's own handler run has ended; no step reads it. -/
structure Call (ρ δ : Type) where
  request : Request
  ctxDone : Bool
  point : Point ρ δ
  outcome : Option (Outcome ρ)
  deriving DecidableEq

structure State (ρ δ : Type) where
  clock : Int
  keys : Store String (Kept δ)
  calls : List (Call ρ δ)

/- redis: the runtime has one. marshal is json.Marshal of success(resp), setSuccess fills a
new result of the method from kept data. -/
structure Env (ρ δ : Type) where
  service : String
  redis : Bool
  marshal : Method → ρ → Option δ
  setSuccess : Method → δ → Option ρ

inductive Action (ρ : Type) where
  | tick (d : Nat)
  | call (r : Request)
  | setNX (c : Nat) (reply : Reply)
  | get (c : Nat) (reply : Reply)
  | finish (c : Nat) (o : Outcome ρ)
  | del (c : Nat) (reply : Reply)
  | store (c : Nat) (reply : Reply)
  | ctxEnds (c : Nat)
  | crash (c : Nat)

section Steps
variable {ρ δ : Type}

def State.init (clock : Int) : State ρ δ := ⟨clock,fun _ => none,[]⟩

def State.setCall (s : State ρ δ) (c : Nat) (call : Call ρ δ) : State ρ δ :=
  {s with calls := s.calls.set c call}

def unavailable : Answer ρ := .refused codeIdempotencyUnavailable "idempotency store unavailable"

variable (env : Env ρ δ)

def Request.key (r : Request) : Option String :=
  r.requestId.map (fun id => idempotencyKey env.service r.method id r.login)

def first (r : Request) : Point ρ δ :=
  match r.requestId with
  | none => .through
  | some id =>
    if id = "" then .returned (.refused codeRequestIDRequired "request_id is required")
    else if env.redis = false then
      .returned (.refused codeIdempotencyUnavailable "idempotency store is not configured")
    else .setNX

def claimed (reply : Reply) (taken : Bool) : Point ρ δ :=
  if reply ≠ .ok then .returned unavailable else if taken then .get else .running

def replay (method : Method) (reply : Reply) (kept : Option (Kept δ)) : Answer ρ :=
  if reply ≠ .ok then unavailable
  else match kept with
    | none | some (.pending _) =>
      .refused codeRequestInProgress "request with this request_id is in progress"
    | some (.result data) =>
      match env.setSuccess method data with
      | some r => .replayed r
      | none => unavailable

/- After the handler: a failure of either kind gives the key back, a result is kept, and
one that cannot be encoded leaves the key as it is. -/
def afterHandler (method : Method) : Outcome ρ → Point ρ δ
  | .error => .del .error
  | .biz => .del .biz
  | .ok r =>
    match env.marshal method r with
    | some data => .store r data
    | none => .returned (.own r)

def step (s : State ρ δ) : Action ρ → Option (State ρ δ)
  | .tick d => some {s with clock := s.clock + d}
  | .call r => some {s with calls := s.calls ++ [⟨r,false,first env r,none⟩]}
  | .setNX c reply => do
    let call ← s.calls[c]?
    let key ← call.request.key env
    match call.point with
    | .setNX =>
      let taken := (Redis.get s.keys s.clock key).isSome
      let keys := if reply.ran then Redis.setNX s.keys s.clock key (.pending c) idempotencyTTL else s.keys
      some ({s with keys := keys}.setCall c {call with point := claimed reply taken})
    | _ => none
  | .get c reply => do
    let call ← s.calls[c]?
    let key ← call.request.key env
    match call.point with
    | .get => some (s.setCall c {call with
        point := .returned (replay env call.request.method reply (Redis.get s.keys s.clock key))})
    | _ => none
  | .finish c o => do
    let call ← s.calls[c]?
    match call.point with
    | .through => some (s.setCall c {call with point := .returned (.passed o)})
    | .running => some (s.setCall c {call with
        point := afterHandler env call.request.method o
        outcome := some o})
    | _ => none
  | .del c reply => do
    let call ← s.calls[c]?
    let key ← call.request.key env
    match call.point with
    | .del o =>
      let keys := if reply.ran then Redis.del s.keys key else s.keys
      some ({s with keys := keys}.setCall c {call with point := .returned (.failed o)})
    | _ => none
  | .store c reply => do
    let call ← s.calls[c]?
    let key ← call.request.key env
    match call.point with
    | .store r data =>
      let keys := if reply.ran then Redis.set s.keys s.clock key (.result data) idempotencyTTL else s.keys
      some ({s with keys := keys}.setCall c {call with point := .returned (.own r)})
    | _ => none
  | .ctxEnds c => do
    let call ← s.calls[c]?
    some (s.setCall c {call with ctxDone := true})
  | .crash c => do
    let call ← s.calls[c]?
    match call.point with
    | .returned _ | .crashed => none
    | _ => some (s.setCall c {call with point := .crashed})

end Steps
end DevkitCommon.Kitexx
