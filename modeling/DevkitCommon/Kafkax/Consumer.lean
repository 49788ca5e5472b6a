import DevkitCommon.Lib.Machine
import DevkitCommon.Lib.Redis

/-! The consumers of one service's group, step by step: poll, one process call for each
record, the parking of what keeps failing, the commit. Rebalances, handler outcomes, the
answers of Redis and Kafka, shutdowns and crashes stand in the action. Whether the
context process works under has ended stands there too: it is the record's, not the
consumer's. -/
namespace DevkitCommon.Kafkax
open Machine Redis

structure Place where
  topic : String
  partition : Nat
  deriving DecidableEq, Repr

/- id is the event id in the envelope; none when the value is no envelope. -/
structure Record where
  place : Place
  offset : Nat
  id : Option String
  deriving DecidableEq, Repr

/- dedupe: the client has a Redis for its dedupe keys. -/
structure Config where
  maxRetries : Int
  dedupe : Bool
  dedupeTTL : Int

def Config.retries (cfg : Config) : Nat := if 0 < cfg.maxRetries then cfg.maxRetries.toNat else 3
def Config.ttl (cfg : Config) : Int := if cfg.dedupeTTL = 0 then 24*3600*second else cfg.dedupeTTL

/- log is what the partitions hold; an offset may have no record. -/
structure Env where
  cfg : Config
  log : Place → Nat → Option (Option String)

abbrev Key := String × String

inductive End where
  | handled | duplicate | redeliver | parked | lost | failed
  deriving DecidableEq, Repr

/- Where a call of process and handle stands. claimed: seen returned the key, so a
failure forgets it. -/
inductive Point where
  | seen (id : String)
  | attempt (claimed : Bool) (n : Nat)
  | forget
  | judge
  | park
  | ended (how : End)
  | dead
  deriving DecidableEq, Repr

def Point.running : Point → Bool
  | .ended _ | .dead => false
  | _ => true

def Point.working : Point → Bool
  | .attempt claimed _ => claimed
  | .forget => true
  | _ => false

structure Run where
  owner : Option Nat
  record : Record
  point : Point
  deriving DecidableEq, Repr

def Run.key (run : Run) : Option Key := run.record.id.map (fun id => (run.record.place.topic,id))

/- One kgo client. todo is what is left of the last poll, run the last process call. -/
structure Consumer where
  topic : String
  ctxDone : Bool
  dead : Bool
  polling : Bool
  position : Place → Option Nat
  todo : List Record
  run : Option Nat

/- The value of a dedupe key is always 1; here it is the number of the call that set it. -/
structure State where
  clock : Int
  dedupe : Store Key Nat
  consumers : List Consumer
  runs : List Run
  committed : Place → Nat
  parked : List Record

def State.init (clock : Int) : State := ⟨clock,fun _ => none,[],[],fun _ => 0,[]⟩

def State.setRun (s : State) (i : Nat) (run : Run) : State := {s with runs := s.runs.set i run}
def State.setConsumer (s : State) (c : Nat) (k : Consumer) : State :=
  {s with consumers := s.consumers.set c k}

def State.runningAt (s : State) (i : Nat) : Bool := (s.runs[i]?).any (fun run => run.point.running)

def State.idle (s : State) (k : Consumer) : Bool := !k.dead && !k.run.any s.runningAt

def State.ctxLive (s : State) (c : Nat) : Bool := (s.consumers[c]?).any (fun k => !k.ctxDone)

inductive Action where
  | tick (d : Nat)
  | join (topic : String)
  | assign (c : Nat) (place : Place)
  | revoke (c : Nat) (place : Place)
  | poll (c : Nat) (place : Place) (n : Nat)
  | handle (c : Nat)
  | replay (r : Record)
  | seen (i : Nat) (reply : Reply)
  | attempt (i : Nat) (nil ctxDone : Bool)
  | forget (i : Nat) (reply : Reply)
  | judge (i : Nat)
  | park (i : Nat) (reply : Reply)
  | commit (c : Nat) (accepted : List Place)
  | stop (c : Nat)
  | crash (c : Nat)
  | crashTool (i : Nat)
  deriving DecidableEq, Repr

section Steps
variable (env : Env)

def fetch (place : Place) (start n : Nat) : List Record :=
  (List.range n).filterMap (fun j => (env.log place (start + j)).map (fun id => ⟨place,start + j,id⟩))

def first (r : Record) : Point :=
  match r.id with
  | none => .judge
  | some id => if env.cfg.dedupe ∧ id ≠ "" then .seen id else .attempt false 1

/- After a failed attempt n: out of the loop when the context has ended or the retries
are used up; the key is forgotten when seen returned one. -/
def afterFailure (claimed ctxDone : Bool) (n : Nat) : Point :=
  if ctxDone = false ∧ n < env.cfg.retries then .attempt claimed (n + 1)
  else if claimed then .forget else .judge

/- seen: the key of another call means a duplicate; an error lets the event through
without a key to forget. -/
def seen (s : State) (i : Nat) (run : Run) (id : String) (reply : Reply) : State :=
  let key := (run.record.place.topic,id)
  let taken := (get s.dedupe s.clock key).isSome
  let store := if reply.ran then setNX s.dedupe s.clock key i env.cfg.ttl else s.dedupe
  let point := if reply = .ok ∧ refused env.cfg.ttl = false then
      if taken then .ended .duplicate else .attempt true 1
    else .attempt false 1
  {s with dedupe := store}.setRun i {run with point := point}

def step (s : State) : Action → Option State
  | .tick d => some {s with clock := s.clock + d}
  | .join topic => some {s with
      consumers := s.consumers ++ [⟨topic,false,false,true,fun _ => none,[],none⟩]}
  | .assign c place => do
    let k ← s.consumers[c]?
    if s.idle k ∧ k.polling ∧ k.todo = [] ∧ place.topic = k.topic then
      some (s.setConsumer c {k with
        position := Function.update k.position place (some (s.committed place))})
    else none
  | .revoke c place => do
    let k ← s.consumers[c]?
    if s.idle k ∧ k.polling ∧ k.todo = [] then
      some (s.setConsumer c {k with position := Function.update k.position place none})
    else none
  | .poll c place n => do
    let k ← s.consumers[c]?
    let pos ← k.position place
    if s.idle k ∧ k.polling ∧ k.ctxDone = false then
      some (s.setConsumer c {k with
        position := Function.update k.position place (some (pos + n))
        todo := k.todo ++ fetch env place pos n})
    else none
  | .handle c => do
    let k ← s.consumers[c]?
    match k.todo with
    | [] => none
    | r::rest =>
      if s.idle k then
        some {s.setConsumer c {k with polling := false, todo := rest, run := some s.runs.length} with
          runs := s.runs ++ [⟨some c,r,first env r⟩]}
      else none
  | .replay r =>
    if r ∈ s.parked then some {s with runs := s.runs ++ [⟨none,r,first env r⟩]} else none
  | .seen i reply => do
    let run ← s.runs[i]?
    match run.point with
    | .seen id => some (seen env s i run id reply)
    | _ => none
  | .attempt i nil ctxDone => do
    let run ← s.runs[i]?
    match run.point with
    | .attempt claimed n => some (s.setRun i {run with
        point := if nil then .ended .handled else afterFailure env claimed ctxDone n})
    | _ => none
  | .forget i reply => do
    let run ← s.runs[i]?
    let key ← run.key
    match run.point with
    | .forget =>
      if reply.ran then
        some ({s with dedupe := del s.dedupe key}.setRun i {run with point := .judge})
      else some (s.setRun i {run with point := .judge})
    | _ => none
  | .judge i => do
    let run ← s.runs[i]?
    match run.point with
    | .judge => some (s.setRun i {run with point := match run.owner with
        | none => .ended .failed
        | some c => if s.ctxLive c then .park else .ended .redeliver})
    | _ => none
  | .park i reply => do
    let run ← s.runs[i]?
    match run.point with
    | .park =>
      if reply.ran then some ({s with parked := s.parked ++ [run.record]}.setRun i
        {run with point := .ended .parked})
      else some (s.setRun i {run with point := .ended .lost})
    | _ => none
  | .commit c accepted => do
    -- under an ended context no partition's commit goes through
    let k ← s.consumers[c]?
    if s.idle k ∧ k.todo = [] then
      some {s.setConsumer c {k with polling := true} with
        committed := fun place =>
          if k.ctxDone = false ∧ place ∈ accepted then (k.position place).getD (s.committed place)
          else s.committed place}
    else none
  | .stop c => do
    let k ← s.consumers[c]?
    some (s.setConsumer c {k with ctxDone := true})
  | .crash c => do
    let k ← s.consumers[c]?
    let s := s.setConsumer c {k with dead := true}
    some {s with runs := s.runs.map (fun run =>
      if run.owner = some c ∧ run.point.running then {run with point := .dead} else run)}
  | .crashTool i => do
    let run ← s.runs[i]?
    if run.owner = none ∧ run.point.running then some (s.setRun i {run with point := .dead}) else none

end Steps
end DevkitCommon.Kafkax
