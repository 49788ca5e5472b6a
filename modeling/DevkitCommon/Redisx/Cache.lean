import DevkitCommon.Lib.Machine
import Mathlib.Logic.Function.Basic

/-! Get and Del of one id of a Cache on any number of replicas, step by step: the read of
Redis, the join of a flight, the load, the flight's end, the write back. What the loader
returns and what Redis answers stand in the action. Versions count the commits of the
source. -/
namespace DevkitCommon.Redisx.Cache
open Machine
variable {V : Type}

inductive Encoded where
  | text (raw : String)
  | fails
  | panics
  deriving DecidableEq, Repr

inductive Decoded (V : Type) where
  | value (v : V)
  | fails
  | panics
  deriving DecidableEq, Repr

/- redis: rdb is there. negative: Negative has been called. isNil: the value is the nil of
an interface type, where V is one. -/
structure Env (V : Type) where
  redis : Bool
  negative : Bool
  isNil : V → Bool
  marshal : V → Encoded
  unmarshal : String → Decoded V

/- What the loader does. notFound is an error that errors.Is takes for the cache's own. -/
inductive Outcome (V : Type) where
  | value (v : V)
  | notFound
  | failed
  | panics
  deriving DecidableEq, Repr

/- What Get returns. unencodable: the value and an error. -/
inductive Answer (V : Type) where
  | value (v : V)
  | unencodable (v : V)
  | notFound
  | failed
  | panicked
  deriving DecidableEq, Repr

structure Loaded (V : Type) where
  version : Nat
  outcome : Outcome V
  deriving DecidableEq, Repr

inductive Point (V : Type) where
  | get
  | join
  | direct
  | load
  | finish
  | forget
  | store (raw : String)
  | wait (leader : Nat)
  | ended (answer : Answer V) (version : Nat)
  deriving DecidableEq, Repr

/- since is the newest version whose Del had succeeded and returned when this Get began,
joined the flight it waited for; no step reads them. done: wg.Done has been called. -/
structure Call (V : Type) where
  replica : Nat
  since : Nat
  point : Point V
  loaded : Option (Loaded V)
  done : Bool
  joined : Option Nat
  deriving DecidableEq, Repr

structure Entry where
  version : Nat
  raw : String
  deriving DecidableEq, Repr

inductive DelPoint where
  | pending
  | answered (ok : Bool)
  | returned
  deriving DecidableEq, Repr

/- version is the source's when this Del began. -/
structure Del where
  version : Nat
  point : DelPoint
  deriving DecidableEq, Repr

/- dropped and settled are the newest versions whose Del has run on Redis and has succeeded
and returned; no step reads them. -/
structure State (V : Type) where
  source : Nat
  cached : Option Entry
  flights : Nat → Option Nat
  calls : List (Call V)
  dels : List Del
  dropped : Nat
  settled : Nat

def State.init : State V := ⟨0,none,fun _ => none,[],[],0,0⟩

def State.setCall (s : State V) (c : Nat) (call : Call V) : State V := {s with calls := s.calls.set c call}
def State.setDel (s : State V) (d : Nat) (del : Del) : State V := {s with dels := s.dels.set d del}
def State.setFlight (s : State V) (replica : Nat) (flight : Option Nat) : State V :=
  {s with flights := Function.update s.flights replica flight}

inductive Action (V : Type) where
  | commit
  | expire
  | call (replica : Nat)
  | get (c : Nat) (ok : Bool)
  | join (c : Nat)
  | direct (c : Nat) (outcome : Outcome V)
  | load (c : Nat) (outcome : Outcome V)
  | finish (c : Nat)
  | forget (c : Nat)
  | store (c : Nat) (reply : Reply)
  | wake (c : Nat)
  | del
  | drop (d : Nat) (reply : Reply)
  | leave (d : Nat)
  deriving DecidableEq, Repr

def tombstone : String := "\x00nf"

def Outcome.answer : Outcome V → Answer V
  | .value v => .value v
  | .notFound => .notFound
  | .failed => .failed
  | .panics => .panicked

section Steps
variable (env : Env V)

def looked (cached : Option Entry) (ok : Bool) : Point V :=
  if ok = false then .direct
  else match cached with
    | none => .join
    | some e =>
      if e.raw = tombstone ∧ env.negative then .ended .notFound e.version
      else match env.unmarshal e.raw with
        | .value v => .ended (.value v) e.version
        | .fails => .join
        | .panics => .ended .panicked e.version

/- What a waiter returns: the value is kept as any, the nil of an interface type is no V then. -/
def released : Outcome V → Answer V
  | .value v => if env.isNil v then .panicked else .value v
  | outcome => outcome.answer

def left (loaded : Loaded V) : Point V :=
  match loaded.outcome with
  | .value v =>
    if env.redis then
      match env.marshal v with
      | .text raw => .store raw
      | .fails => .ended (.unencodable v) loaded.version
      | .panics => .ended .panicked loaded.version
    else .ended (.value v) loaded.version
  | .notFound => if env.redis ∧ env.negative then .store tombstone else .ended .notFound loaded.version
  | outcome => .ended outcome.answer loaded.version

def step (s : State V) : Action V → Option (State V)
  | .commit => some {s with source := s.source + 1}
  | .expire => some {s with cached := none}
  | .call replica => some {s with
      calls := s.calls ++ [⟨replica,s.settled,if env.redis then .get else .join,none,false,none⟩]}
  | .get c ok => do
    let call ← s.calls[c]?
    match call.point with
    | .get => some (s.setCall c {call with point := looked env s.cached ok})
    | _ => none
  | .join c => do
    let call ← s.calls[c]?
    match call.point,s.flights call.replica with
    | .join,none => some ((s.setCall c {call with point := .load}).setFlight call.replica (some c))
    | .join,some leader => some (s.setCall c {call with point := .wait leader,joined := some leader})
    | _,_ => none
  | .direct c outcome => do
    let call ← s.calls[c]?
    match call.point with
    | .direct => some (s.setCall c {call with point := .ended outcome.answer s.source})
    | _ => none
  | .load c outcome => do
    let call ← s.calls[c]?
    match call.point,outcome with
    | .load,.panics => some (s.setCall c {call with point := .ended .panicked s.source})
    | .load,outcome => some (s.setCall c {call with point := .finish,loaded := some ⟨s.source,outcome⟩})
    | _,_ => none
  | .finish c => do
    let call ← s.calls[c]?
    match call.point with
    | .finish => some (s.setCall c {call with point := .forget,done := true})
    | _ => none
  | .forget c => do
    let call ← s.calls[c]?
    let loaded ← call.loaded
    match call.point with
    | .forget => some ((s.setCall c {call with point := left env loaded}).setFlight call.replica none)
    | _ => none
  | .store c reply => do
    let call ← s.calls[c]?
    let loaded ← call.loaded
    match call.point with
    | .store raw => some ({s with cached := if reply.ran then some ⟨loaded.version,raw⟩ else s.cached}.setCall c
        {call with point := .ended loaded.outcome.answer loaded.version})
    | _ => none
  | .wake c => do
    let call ← s.calls[c]?
    match call.point with
    | .wait l => do
      let leader ← s.calls[l]?
      let loaded ← leader.loaded
      if leader.done then
        some (s.setCall c {call with point := .ended (released env loaded.outcome) loaded.version})
      else none
    | _ => none
  | .del => some {s with dels := s.dels ++ [⟨s.source,if env.redis then .pending else .answered true⟩]}
  | .drop d reply => do
    let del ← s.dels[d]?
    match del.point with
    | .pending => some ({s with
        cached := if reply.ran then none else s.cached
        dropped := if reply.ran then max s.dropped del.version else s.dropped}.setDel d
          {del with point := .answered (reply == Reply.ok)})
    | _ => none
  | .leave d => do
    let del ← s.dels[d]?
    match del.point with
    | .answered ok => some ({s with
        settled := if ok then max s.settled del.version else s.settled}.setDel d {del with point := .returned})
    | _ => none

inductive Does (s : State V) : Action V → State V → Prop where
  | commit : Does s .commit {s with source := s.source + 1}
  | expire : Does s .expire {s with cached := none}
  | call (replica : Nat) : Does s (.call replica) {s with
      calls := s.calls ++ [⟨replica,s.settled,if env.redis then .get else .join,none,false,none⟩]}
  | get {c call} (ok : Bool) (found : s.calls[c]? = some call) (here : call.point = .get) :
      Does s (.get c ok) (s.setCall c {call with point := looked env s.cached ok})
  | leads {c call} (found : s.calls[c]? = some call) (here : call.point = .join)
      (free : s.flights call.replica = none) :
      Does s (.join c) ((s.setCall c {call with point := .load}).setFlight call.replica (some c))
  | joins {c call leader} (found : s.calls[c]? = some call) (here : call.point = .join)
      (flies : s.flights call.replica = some leader) :
      Does s (.join c) (s.setCall c {call with point := .wait leader,joined := some leader})
  | direct {c call} (outcome : Outcome V) (found : s.calls[c]? = some call) (here : call.point = .direct) :
      Does s (.direct c outcome) (s.setCall c {call with point := .ended outcome.answer s.source})
  | panics {c call} (found : s.calls[c]? = some call) (here : call.point = .load) :
      Does s (.load c .panics) (s.setCall c {call with point := .ended .panicked s.source})
  | loads {c call outcome} (found : s.calls[c]? = some call) (here : call.point = .load)
      (returns : outcome ≠ .panics) :
      Does s (.load c outcome) (s.setCall c {call with point := .finish,loaded := some ⟨s.source,outcome⟩})
  | finish {c call} (found : s.calls[c]? = some call) (here : call.point = .finish) :
      Does s (.finish c) (s.setCall c {call with point := .forget,done := true})
  | forget {c call loaded} (found : s.calls[c]? = some call) (here : call.point = .forget)
      (read : call.loaded = some loaded) :
      Does s (.forget c) ((s.setCall c {call with point := left env loaded}).setFlight call.replica none)
  | store {c call loaded raw} (reply : Reply) (found : s.calls[c]? = some call) (here : call.point = .store raw)
      (read : call.loaded = some loaded) :
      Does s (.store c reply) ({s with cached := if reply.ran then some ⟨loaded.version,raw⟩ else s.cached}.setCall c
        {call with point := .ended loaded.outcome.answer loaded.version})
  | wake {c call l leader loaded} (found : s.calls[c]? = some call) (here : call.point = .wait l)
      (its : s.calls[l]? = some leader) (read : leader.loaded = some loaded) (done : leader.done = true) :
      Does s (.wake c) (s.setCall c {call with point := .ended (released env loaded.outcome) loaded.version})
  | del : Does s .del {s with dels := s.dels ++ [⟨s.source,if env.redis then .pending else .answered true⟩]}
  | drop {d del} (reply : Reply) (found : s.dels[d]? = some del) (here : del.point = .pending) :
      Does s (.drop d reply) ({s with
        cached := if reply.ran then none else s.cached
        dropped := if reply.ran then max s.dropped del.version else s.dropped}.setDel d
          {del with point := .answered (reply == Reply.ok)})
  | leave {d del ok} (found : s.dels[d]? = some del) (here : del.point = .answered ok) :
      Does s (.leave d) ({s with
        settled := if ok then max s.settled del.version else s.settled}.setDel d {del with point := .returned})

end Steps

variable {env : Env V} {s t : State V} {a : Action V}

theorem stepDoes (one : step env s a = some t) : Does env s a t := by
  cases a <;> simp only [step,bind,Option.bind_eq_some_iff,Option.some.injEq] at one
  case commit => subst one; exact .commit
  case expire => subst one; exact .expire
  case call replica => subst one; exact .call replica
  case get c ok =>
    obtain ⟨call,found,last⟩ := one
    split at last <;> try contradiction
    rename_i here
    cases Option.some.inj last
    exact .get ok found here
  case join c =>
    obtain ⟨call,found,last⟩ := one
    split at last <;> try contradiction
    · rename_i here free
      cases Option.some.inj last
      exact .leads found here free
    · rename_i leader here flies
      cases Option.some.inj last
      exact .joins found here flies
  case direct c outcome =>
    obtain ⟨call,found,last⟩ := one
    split at last <;> try contradiction
    rename_i here
    cases Option.some.inj last
    exact .direct outcome found here
  case load c outcome =>
    obtain ⟨call,found,last⟩ := one
    split at last <;> try contradiction
    · rename_i here
      cases Option.some.inj last
      exact .panics found here
    · rename_i returns
      cases Option.some.inj last
      exact .loads found (by assumption) returns
  case finish c =>
    obtain ⟨call,found,last⟩ := one
    split at last <;> try contradiction
    rename_i here
    cases Option.some.inj last
    exact .finish found here
  case forget c =>
    obtain ⟨call,found,loaded,read,last⟩ := one
    split at last <;> try contradiction
    rename_i here
    cases Option.some.inj last
    exact .forget found here read
  case store c reply =>
    obtain ⟨call,found,loaded,read,last⟩ := one
    split at last <;> try contradiction
    rename_i raw here
    cases Option.some.inj last
    exact .store reply found here read
  case wake c =>
    obtain ⟨call,found,last⟩ := one
    split at last <;> try contradiction
    rename_i l here
    obtain ⟨leader,its,loaded,read,last⟩ : ∃ leader, s.calls[l]? = some leader ∧ ∃ loaded,
        leader.loaded = some loaded ∧ _ := by
      simpa only [Option.bind_eq_some_iff] using last
    split at last <;> try contradiction
    rename_i done
    cases Option.some.inj last
    exact .wake found here its read done
  case del => subst one; exact .del
  case drop d reply =>
    obtain ⟨del,found,last⟩ := one
    split at last <;> try contradiction
    rename_i here
    cases Option.some.inj last
    exact .drop reply found here
  case leave d =>
    obtain ⟨del,found,last⟩ := one
    split at last <;> try contradiction
    rename_i ok here
    cases Option.some.inj last
    exact .leave found here

end DevkitCommon.Redisx.Cache
