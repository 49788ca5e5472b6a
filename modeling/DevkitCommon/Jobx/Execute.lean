import DevkitCommon.Lib.Machine
import DevkitCommon.Lib.Redis
import Mathlib.Algebra.Ring.Int.Defs
import Mathlib.Algebra.Ring.Nat

/-! Execute by any number of processes on one Redis, step by step: the checks of the job list,
the try for the lock, the run under its timeout, and the DEL at the end. Redis answers and the
way a run ends stand in the action. The clock is in milliseconds, durations are nanoseconds. -/
namespace DevkitCommon.Jobx
open Machine Redis

def minute : Int := 60*second

structure Job where
  name : String
  schedule : String
  timeout : Int
  description : String
  run : Bool
  deriving DecidableEq, Repr

def defaultTimeout : Int := 10*minute
def lockTTLSlack : Int := minute

def Job.timeoutOr (j : Job) : Int := if 0 < j.timeout then j.timeout else defaultTimeout

def Job.lockTTL (j : Job) : Int := (j.timeoutOr + lockTTLSlack).bmod (2^64)

def alnum (c : Char) : Bool := decide ('a' ≤ c ∧ c ≤ 'z') || c.isDigit

def validName (name : String) : Bool :=
  decide (name.length ≤ 63) && name.toList.all (fun c => alnum c || c == '-') &&
    name.toList.head?.any alnum && name.toList.getLast?.any alnum

inductive Invalid where
  | badName (name : String)
  | twice (name : String)
  | badSchedule (name schedule err : String)
  | noRun (name : String)
  deriving DecidableEq, Repr

def Invalid.text (quote : String → String) : Invalid → String
  | .badName name => "jobx: job name " ++ quote name ++ ": lowercase letters, digits and dashes, at most 63 characters"
  | .twice name => "jobx: job " ++ quote name ++ " is listed twice"
  | .badSchedule name schedule err => "jobx: job " ++ quote name ++ ": schedule " ++ quote schedule ++ ": " ++ err ++
      " (five fields, e.g. \"*/5 * * * *\")"
  | .noRun name => "jobx: job " ++ quote name ++ " has no Run"

/- redis: the service has one, the Locker of its jobs. cron: the parser's error, none for a
schedule it reads. -/
structure Env where
  redis : Bool
  cron : String → Option String

section Checks
variable (env : Env)

def checkJob (seen : List String) (j : Job) : Option Invalid :=
  if validName j.name = false then some (.badName j.name)
  else if j.name ∈ seen then some (.twice j.name)
  else match env.cron j.schedule with
    | some err => some (.badSchedule j.name j.schedule err)
    | none => if j.run then none else some (.noRun j.name)

def validateFrom (seen : List String) : List Job → Option Invalid
  | [] => none
  | j::rest => (checkJob env seen j).or (validateFrom (j.name::seen) rest)

def validate (jobs : List Job) : Option Invalid := validateFrom env [] jobs

def find (jobs : List Job) (name : String) : Option Job := jobs.find? (fun j => j.name == name)

inductive Result where
  | invalid (e : Invalid)
  | notFound (name : String) (names : List String)
  | lock
  | locked
  | finished
  | timedOut
  | failed
  deriving DecidableEq, Repr

def prepare (jobs : List Job) (name : String) : Except Result Job :=
  match validate env jobs with
  | some e => .error (.invalid e)
  | none =>
    match find jobs name with
    | none => .error (.notFound name (jobs.map Job.name))
    | some j => .ok j

end Checks

def key (service : String) (j : Job) : String := "job:" ++ service ++ ":" ++ j.name

inductive CtxErr where
  | canceled
  | deadline
  deriving DecidableEq, Repr

inductive Point where
  | setNX
  | running
  | del (r : Result)
  | returned (r : Result)
  | crashed
  deriving DecidableEq, Repr

/- lease is what the call's SETNX wrote; removed is what the key held when Redis ran its DEL.
No step reads them. The run id of a call is its number. -/
structure Call where
  key : String
  timeout : Int
  ttl : Int
  point : Point
  start : Int
  ctxErr : Option CtxErr
  lease : Option (Entry Nat)
  removed : Option Nat
  deriving DecidableEq, Repr

structure State where
  clock : Int
  keys : Store String Nat
  calls : List Call

def State.init (clock : Int) : State := ⟨clock,fun _ => none,[]⟩

def State.setCall (s : State) (c : Nat) (call : Call) : State := {s with calls := s.calls.set c call}

inductive Action where
  | tick (d : Nat)
  | call (service : String) (jobs : List Job) (name : String)
  | setNX (c : Nat) (reply : Reply)
  | cancel (c : Nat)
  | deadline (c : Nat)
  | finish (c : Nat) (failed : Bool)
  | del (c : Nat) (reply : Reply)
  | crash (c : Nat)
  deriving DecidableEq, Repr

def ended (ctxErr : Option CtxErr) (failed : Bool) : Result :=
  if failed = false then .finished else if ctxErr = some .deadline then .timedOut else .failed

section Steps
variable (env : Env)

def entered (s : State) (service : String) (jobs : List Job) (name : String) : Call :=
  match prepare env jobs name with
  | .error r => ⟨"",0,0,.returned r,s.clock,none,none,none⟩
  | .ok j => ⟨key service j,j.timeoutOr,j.lockTTL,if env.redis then .setNX else .running,s.clock,none,none,none⟩

def step (s : State) : Action → Option State
  | .tick d => some {s with clock := s.clock + d}
  | .call service jobs name => some {s with calls := s.calls ++ [entered env s service jobs name]}
  | .setNX c reply => do
    let call ← s.calls[c]?
    if call.point = .setNX then
      let free := !refused call.ttl && (get s.keys s.clock call.key).isNone
      let keys := if reply.ran then setNX s.keys s.clock call.key c call.ttl else s.keys
      let lease := if reply.ran && free then some ⟨c,setLapse s.clock call.ttl none⟩ else none
      let point :=
        if reply ≠ .ok ∨ refused call.ttl then .returned .lock
        else if free then .running
        else .returned .locked
      some ({s with keys := keys}.setCall c {call with point := point,start := s.clock,lease := lease})
    else none
  | .cancel c => do
    let call ← s.calls[c]?
    if call.point = .running ∧ call.ctxErr = none then some (s.setCall c {call with ctxErr := some .canceled}) else none
  | .deadline c => do
    let call ← s.calls[c]?
    if call.point = .running ∧ call.ctxErr = none ∧ call.start*millisecond + call.timeout ≤ s.clock*millisecond then
      some (s.setCall c {call with ctxErr := some .deadline})
    else none
  | .finish c failed => do
    let call ← s.calls[c]?
    if call.point = .running then
      let r := ended call.ctxErr failed
      some (s.setCall c {call with point := if env.redis then .del r else .returned r})
    else none
  | .del c reply => do
    let call ← s.calls[c]?
    match call.point with
    | .del r =>
      if reply.ran then
        some ({s with keys := Redis.del s.keys call.key}.setCall c
          {call with point := .returned r,removed := get s.keys s.clock call.key})
      else some (s.setCall c {call with point := .returned r})
    | _ => none
  | .crash c => do
    let call ← s.calls[c]?
    match call.point with
    | .returned _ | .crashed => none
    -- a command that is on its way still reaches Redis: the crash comes after it then
    | _ => some (s.setCall c {call with point := .crashed})

end Steps
end DevkitCommon.Jobx
