import DevkitCommon.Lib.Machine
import DevkitCommon.Lib.Redis

/-! The callbacks of providers, step by step: the checks, the raw copy, the dedupe key, the
handler, the answer. Deliveries come in any number on any routes; what Kafka and Redis
answer, how the handler ends and the crashes stand in the action. -/
namespace DevkitCommon.Webhookx
open Machine Redis

structure EventIDSource where
  header : String
  json : String
  deriving DecidableEq, Repr

structure Callback where
  verifyType : String
  allowCIDRs : List String
  eventID : EventIDSource
  dedupeTTL : Int
  archiveTopic : String
  maxBody : Int
  deriving DecidableEq, Repr

structure Route where
  provider : String
  cfg : Callback
  replyStatus : Nat
  replyType : String
  replyBody : String
  deriving DecidableEq, Repr

structure Event where
  provider : String
  id : String
  method : String
  path : String
  headers : List (String × String)
  body : List UInt8
  clientIP : String
  deriving DecidableEq, Repr

structure Request where
  method : String
  path : String
  query : String
  headers : List (String × String)
  body : List UInt8
  clientIP : String
  deriving DecidableEq, Repr

/- What a route has: its Redis and its Kafka, and its judgements of a request, which are
any functions of it. -/
structure Env where
  redis : Bool
  kafka : Bool
  inAny : List String → String → Bool
  verify : Route → Event → String → Bool
  eventID : EventIDSource → Event → String

def Callback.limit (cfg : Callback) : Int := if cfg.maxBody ≤ 0 then 1048576 else cfg.maxBody
def Callback.ttl (cfg : Callback) : Int := if cfg.dedupeTTL = 0 then 7*24*3600*second else cfg.dedupeTTL

def Route.topic (r : Route) : String :=
  if r.cfg.archiveTopic = "-" then ""
  else if r.cfg.archiveTopic = "" then "callbacks." ++ r.provider
  else r.cfg.archiveTopic

def Event.key (ev : Event) : String := "cb:" ++ ev.provider ++ ":" ++ ev.id

inductive Answer where
  | reply (status : Nat) (contentType body : String)
  | status (code : Nat)
  deriving DecidableEq, Repr

inductive Point where
  | archive
  | seen
  | handler
  | forget
  | reply (a : Answer)
  | answered (a : Answer)
  | dead
  deriving DecidableEq, Repr

/- claimed: the delivery's own SETNX was answered with yes. outcome is how its handler's
run ended, if it has; no step reads it. -/
structure Delivery where
  route : Route
  event : Event
  point : Point
  claimed : Bool
  outcome : Option Bool
  deriving DecidableEq, Repr

structure Copy where
  topic : String
  key : String
  event : Event
  deriving DecidableEq, Repr

/- The value of a dedupe key is the time; here it is the number of the delivery that set it. -/
structure State where
  clock : Int
  keys : Store String Nat
  deliveries : List Delivery
  archived : List Copy

def State.init (clock : Int) : State := ⟨clock,fun _ => none,[],[]⟩

def State.setDelivery (s : State) (i : Nat) (d : Delivery) : State :=
  {s with deliveries := s.deliveries.set i d}

inductive Action where
  | tick (d : Nat)
  | serve (r : Route) (req : Request)
  | publish (i : Nat) (reply : Reply)
  | seen (i : Nat) (reply : Reply)
  | handler (i : Nat) (nil : Bool)
  | forget (i : Nat) (reply : Reply)
  | answer (i : Nat)
  | crash (i : Nat)
  | drop (key : String)
  deriving DecidableEq, Repr

def Route.reply (r : Route) : Answer := .reply r.replyStatus r.replyType r.replyBody

section Steps
variable (env : Env)

def afterCopy (ev : Event) : Point := if ev.id ≠ "" ∧ env.redis then .seen else .handler

def first (r : Route) (req : Request) : Delivery :=
  let ev : Event := ⟨r.provider,"",req.method,req.path,req.headers,req.body,req.clientIP⟩
  if r.cfg.allowCIDRs ≠ [] ∧ env.inAny r.cfg.allowCIDRs req.clientIP = false then
    ⟨r,ev,.reply (.status 403),false,none⟩
  else if r.cfg.limit < req.body.length then ⟨r,ev,.reply (.status 413),false,none⟩
  else if env.verify r ev req.query = false then ⟨r,ev,.reply (.status 401),false,none⟩
  else
    let ev := {ev with id := env.eventID r.cfg.eventID ev}
    ⟨r,ev,if r.topic ≠ "" ∧ env.kafka then .archive else afterCopy env ev,false,none⟩

def looked (s : State) (d : Delivery) (reply : Reply) : Delivery :=
  if reply ≠ .ok ∨ refused d.route.cfg.ttl = true then {d with point := .reply (.status 500)}
  else if (get s.keys s.clock d.event.key).isSome then {d with point := .reply d.route.reply}
  else {d with point := .handler,claimed := true}

def step (s : State) : Action → Option State
  | .tick d => some {s with clock := s.clock + d}
  | .serve r req => some {s with deliveries := s.deliveries ++ [first env r req]}
  | .publish i reply => do
    let d ← s.deliveries[i]?
    if d.point = .archive then
      let point := if reply = .ok then afterCopy env d.event else .reply (.status 500)
      let copy : Copy := ⟨d.route.topic,if d.event.id ≠ "" then d.event.id else d.event.provider,d.event⟩
      some ({s with archived := if reply.ran then s.archived ++ [copy] else s.archived}.setDelivery i
        {d with point := point})
    else none
  | .seen i reply => do
    let d ← s.deliveries[i]?
    if d.point = .seen then
      let keys := if reply.ran then setNX s.keys s.clock d.event.key i d.route.cfg.ttl else s.keys
      some ({s with keys := keys}.setDelivery i (looked s d reply))
    else none
  | .handler i nil => do
    let d ← s.deliveries[i]?
    if d.point = .handler then
      some (s.setDelivery i {d with
        outcome := some nil
        point := if nil then .reply d.route.reply
          else if d.claimed then .forget
          else .reply (.status 500)})
    else none
  | .forget i reply => do
    let d ← s.deliveries[i]?
    if d.point = .forget then
      -- what DEL answers is not looked at
      let keys := if reply.ran then del s.keys d.event.key else s.keys
      some ({s with keys := keys}.setDelivery i {d with point := .reply (.status 500)})
    else none
  | .answer i => do
    let d ← s.deliveries[i]?
    match d.point with
    | .reply a => some (s.setDelivery i {d with point := .answered a})
    | _ => none
  | .crash i => do
    let d ← s.deliveries[i]?
    match d.point with
    | .answered _ | .dead => none
    | _ => some (s.setDelivery i {d with point := .dead})
  | .drop key => some {s with keys := del s.keys key}

end Steps
end DevkitCommon.Webhookx
