import DevkitCommon.Kafkax.Consumer
import Mathlib.Data.List.Sort

/-! The dead letters of one topic, step by step: the process calls of the consumers of any
services, the parking, and the commands of their tools. A tool reads its pending letters
first and commits its position last; every process call between may meet a dedupe key.
Handler outcomes, what Redis and Kafka answer and the crashes stand in the action. -/
namespace DevkitCommon.Kafkax.DLQ
open Machine Redis

abbrev Headers := List (String × String)

structure Original where
  record : Record
  key : String
  value : String
  headers : Headers
  deriving DecidableEq, Repr

/- A record of the dead-letter topic. parker is the service whose park wrote it; no step
reads it, a tool reads the headers. -/
structure Letter where
  parker : String
  partition : Nat
  offset : Nat
  id : Option String
  key : String
  value : String
  headers : Headers
  deriving DecidableEq, Repr

def suffix : String := ".dlq"

def dedupeKey (service topic id : String) : String := "dedupe:" ++ service ++ ":" ++ topic ++ ":" ++ id

def parkHeaders (service source cause : String) (headers : Headers) : Headers :=
  headers ++ [("error",cause),("source-topic",source),("consumer",service)]

def consumerOf (headers : Headers) : String :=
  match headers.find? (fun h => h.1 == "consumer") with
  | some h => h.2
  | none => ""

def parkedHere (service : String) (l : Letter) : Bool :=
  consumerOf l.headers == "" || consumerOf l.headers == service

def rebuilt (source : String) (l : Letter) : Original :=
  ⟨⟨⟨source,l.partition⟩,l.offset,l.id⟩,l.key,l.value,
    l.headers.filter (fun h => !(["error","source-topic","consumer","replayed-from"].contains h.1)) ++
      [("replayed-from",source ++ suffix ++ "@" ++ toString l.offset)]⟩

structure Call where
  service : String
  tool : Bool
  original : Original
  point : Point
  deriving DecidableEq, Repr

def Call.letter (call : Call) (source : String) (partition offset : Nat) (cause : String) : Letter :=
  ⟨call.service,partition,offset,call.original.record.id,call.original.key,call.original.value,
    parkHeaders call.service source cause call.original.headers⟩

inductive Kind where
  | replay
  | replayOne (partition offset : Nat)
  | drop (only : Option Nat)
  deriving DecidableEq, Repr

def Kind.drops : Kind → Letter → Bool
  | .drop only,l => only.all (fun offset => l.offset == offset)
  | _,_ => false

/- A command of a service's tool: recs is what it has read, todo what is left of it to
replay, done the positions to commit (the latest of a partition in front), call the
process call of the first of todo. -/
structure Tool where
  service : String
  kind : Kind
  recs : List Letter
  todo : List Letter
  done : List (Nat × Nat)
  call : Option Nat
  ended : Bool
  deriving DecidableEq, Repr

/- The value of a dedupe key is always 1; here it is the number of the call that set it.
dropped are the letters the operators have asked to drop, once they are marked done; no
step reads it. -/
structure State where
  clock : Int
  dedupe : Store String Nat
  calls : List Call
  letters : List Letter
  position : String → Nat → Nat
  tools : List Tool
  dropped : List (String × Letter)

namespace State
def init (clock : Int) : State := ⟨clock,fun _ => none,[],[],fun _ _ => 0,[],[]⟩
def setCall (s : State) (i : Nat) (call : Call) : State := {s with calls := s.calls.set i call}
def setTool (s : State) (k : Nat) (tool : Tool) : State := {s with tools := s.tools.set k tool}

def fresh (s : State) (partition : Nat) : Nat := s.letters.countP (fun l => l.partition == partition)

def pending (s : State) (service : String) (reads : List Nat) : List Letter :=
  s.letters.filter (fun l =>
    decide (s.position service l.partition ≤ l.offset) && decide (l.offset < reads.getD l.partition 0))

end State

def inOrder (a b : Letter) : Prop := a.partition < b.partition ∨ a.partition = b.partition ∧ a.offset ≤ b.offset
instance : DecidableRel inOrder := fun a b => by unfold inOrder; infer_instance

def sorted (recs : List Letter) : List Letter := recs.insertionSort inOrder

def marks (recs : List Letter) : List (Nat × Nat) :=
  (sorted recs).reverse.map (fun l => (l.partition,l.offset + 1))

def isFirst (service : String) (recs : List Letter) (l : Letter) : Bool :=
  !recs.any (fun other => other.partition == l.partition && decide (other.offset < l.offset) &&
    parkedHere service other)

inductive Action where
  | tick (d : Nat)
  | consume (service : String) (o : Original)
  | seen (i : Nat) (reply : Reply)
  | attempt (i : Nat) (nil ctxDone : Bool)
  | forget (i : Nat) (reply : Reply)
  | judge (i : Nat) (ctxDone : Bool)
  | park (i partition : Nat) (cause : String) (reply : Reply)
  | crash (i : Nat)
  | command (service : String) (kind : Kind) (reads : List Nat)
  | next (k : Nat)
  | result (k : Nat)
  | commit (k : Nat) (reply : Reply)
  | crashTool (k : Nat)
  deriving DecidableEq, Repr

section Steps
variable (source : String) (cfg : String → Config)

def envOf (service : String) : Env := ⟨cfg service,fun _ _ => none⟩

def begin' (s : State) (service : String) (tool : Bool) (o : Original) : State :=
  {s with calls := s.calls ++ [⟨service,tool,o,first (envOf cfg service) o.record⟩]}

def start (service : String) (kind : Kind) (recs : List Letter) : Tool :=
  match kind with
  -- an offset is read as a number and not looked at again
  | .drop _ => ⟨service,kind,recs,[],marks recs,none,false⟩
  | .replay => ⟨service,kind,recs,sorted recs,[],none,false⟩
  | .replayOne partition offset =>
    match recs.find? (fun l => l.partition == partition && l.offset == offset) with
    | none => ⟨service,kind,recs,[],[],none,true⟩
    | some l => if parkedHere service l then ⟨service,kind,recs,[l],[],none,false⟩
      else ⟨service,kind,recs,[],[],none,true⟩

def after (tool : Tool) (l : Letter) (rest : List Letter) (nil : Bool) : Tool :=
  match tool.kind with
  | .replayOne _ _ =>
    if nil then {tool with
      call := none, todo := [], done := if isFirst tool.service tool.recs l then [(l.partition,l.offset + 1)] else []}
    else {tool with call := none, todo := [], ended := true}
  | _ =>
    if nil then {tool with call := none, todo := rest, done := (l.partition,l.offset + 1)::tool.done}
    -- the partition's position stops here
    else {tool with call := none, todo := rest.filter (fun other => other.partition != l.partition)}

def step (s : State) : Action → Option State
  | .tick d => some {s with clock := s.clock + d}
  | .consume service o =>
    if o.record.place.topic = source then some (begin' cfg s service false o) else none
  | .seen i reply => do
    let call ← s.calls[i]?
    match call.point with
    | .seen id =>
      let key := dedupeKey call.service call.original.record.place.topic id
      let ttl := (cfg call.service).ttl
      let taken := (get s.dedupe s.clock key).isSome
      let store := if reply.ran then setNX s.dedupe s.clock key i ttl else s.dedupe
      let point := if reply = .ok ∧ refused ttl = false then
          if taken then .ended .duplicate else .attempt true 1
        else .attempt false 1
      some ({s with dedupe := store}.setCall i {call with point := point})
    | _ => none
  | .attempt i nil ctxDone => do
    let call ← s.calls[i]?
    match call.point with
    | .attempt claimed n => some (s.setCall i {call with
        point := if nil then .ended .handled else afterFailure (envOf cfg call.service) claimed ctxDone n})
    | _ => none
  | .forget i reply => do
    let call ← s.calls[i]?
    let id ← call.original.record.id
    match call.point with
    | .forget =>
      let key := dedupeKey call.service call.original.record.place.topic id
      let store := if reply.ran then del s.dedupe key else s.dedupe
      some ({s with dedupe := store}.setCall i {call with point := .judge})
    | _ => none
  | .judge i ctxDone => do
    let call ← s.calls[i]?
    match call.point with
    | .judge => some (s.setCall i {call with
        point := if call.tool then .ended .failed else if ctxDone then .ended .redeliver else .park})
    | _ => none
  | .park i partition cause reply => do
    let call ← s.calls[i]?
    match call.point with
    | .park =>
      let l := call.letter source partition (s.fresh partition) cause
      some ({s with letters := if reply.ran then s.letters ++ [l] else s.letters}.setCall i
        {call with point := if reply.ran then .ended .parked else .ended .lost})
    | _ => none
  | .crash i => do
    let call ← s.calls[i]?
    if call.point.running then some (s.setCall i {call with point := .dead}) else none
  | .command service kind reads =>
    some {s with tools := s.tools ++ [start service kind (s.pending service reads)]}
  | .next k => do
    let tool ← s.tools[k]?
    match tool.todo,tool.call with
    | l::rest,none =>
      if parkedHere tool.service l then
        some ((begin' cfg s tool.service true (rebuilt source l)).setTool k
          {tool with call := some s.calls.length})
      else some (s.setTool k {tool with call := none, todo := rest, done := (l.partition,l.offset + 1)::tool.done})
    | _,_ => none
  | .result k => do
    let tool ← s.tools[k]?
    let i ← tool.call
    let call ← s.calls[i]?
    match tool.todo,call.point with
    | l::rest,.ended how =>
      some (s.setTool k (after tool l rest (how == .handled || how == .duplicate)))
    | _,_ => none
  | .commit k reply => do
    let tool ← s.tools[k]?
    if tool.todo = [] ∧ tool.ended = false then
      let s := s.setTool k {tool with ended := true}
      if reply.ran then some {s with
        position := fun service partition => if service = tool.service then
            (tool.done.lookup partition).getD (s.position service partition) else s.position service partition
        dropped := s.dropped ++ (tool.recs.filter tool.kind.drops).map (fun l => (tool.service,l))}
      else some s
    else none
  | .crashTool k => do
    let tool ← s.tools[k]?
    some (s.setTool k {tool with todo := [], call := none, ended := true})

end Steps
end DevkitCommon.Kafkax.DLQ
