import DevkitCommon.Lib.Machine
import DevkitCommon.Nacosx.Value
import Mathlib.Data.List.Basic

/-! One configuration and all who follow it, step by step: the calls of Watch and of
OnChange, the goroutines in which the SDK runs the listener, the writes to the server. A
goroutine that holds w.mu is in w.mu; what reads of the server answer, the order of all
steps and how the subscribers' functions end stand in the action. -/
namespace DevkitCommon.Nacosx
open Machine
variable {T : Type}

inductive Point where
  | follow
  | inside
  | load (content : Content)
  | unfollow
  | returned
  | failed
  | panicked
  deriving DecidableEq, Repr

/- watch: the call is Watch, whose subscriber is v.changed, and not OnChange. heard is what
follow returned and what the subscriber has been called with, each with its place among the
server's contents; log is what the value has been through. No step reads either. -/
structure Call (T : Type) where
  watch : Bool
  point : Point
  value : Value T
  heard : List (Nat × Content)
  log : List (Event T)

/- A listener carries what was pushed, and sent, the server's version at that moment. -/
inductive Caller where
  | push (sent : Nat) (pushed : Content)
  | follow (c : Nat)
  deriving DecidableEq, Repr

/- The loop of apply: about to call the next subscriber, which may then wait for v.mu and
hold it. -/
inductive Turn where
  | next
  | waits
  | locked
  deriving DecidableEq, Repr

inductive Stage where
  | fetch
  | tell (content : Content) (version : Nat) (rest : List Nat) (turn : Turn)
  | listen (content : Content) (version : Nat)
  deriving DecidableEq, Repr

structure Hold where
  caller : Caller
  stage : Stage
  deriving DecidableEq, Repr

structure Watch where
  mu : Option Hold
  listening : Bool
  sum : String
  content : Content
  subs : List Nat
  deriving DecidableEq, Repr

/- history: the contents the server has had. sent is its version at the last push and read
the version that was read last under w.mu; no step reads them. -/
structure State (T : Type) where
  history : List Content
  sent : Nat
  read : Option Nat
  pushes : List (Nat × Content)
  w : Watch
  calls : List (Call T)

def State.init (start : Content) : State T := ⟨[start],0,none,[],⟨none,false,"",[],[]⟩,[]⟩

def State.server (s : State T) : Content := s.history.getLastD []
def State.version (s : State T) : Nat := s.history.length - 1

def State.setCall (s : State T) (c : Nat) (call : Call T) : State T := {s with calls := s.calls.set c call}
def State.hold (s : State T) (mu : Option Hold) : State T := {s with w := {s.w with mu := mu}}

inductive Action where
  | write (content : Content)
  | push (pushed : Content)
  | watch
  | onChange
  | takePush (i : Nat)
  | takeFollow (c : Nat)
  | fetch (ok : Bool)
  | listen (ok : Bool)
  | tell (ended : Ended)
  | lock
  | change (panics : List Nat)
  | done
  | load (c : Nat)
  | unfollow (c : Nat)
  | leave (c : Nat)
  | hook (c : Nat)
  deriving DecidableEq, Repr

def Call.start (watch : Bool) : Call T :=
  ⟨watch,.follow,⟨none,if watch then some .watch else none,[],[],""⟩,[],[]⟩

def apply (w : Watch) (content : Content) : Watch × List Nat :=
  if Nacosx.sum content = w.sum then (w,[]) else ({w with content := content,sum := Nacosx.sum content},w.subs)

def State.applied (s : State T) (caller : Caller) (content : Content) : State T :=
  let told := apply s.w content
  {s with w := {told.1 with mu := some ⟨caller,.tell content s.version told.2 .next⟩}}

def Call.fails (call : Call T) : Call T := {call with point := .failed,value := {call.value with mu := none}}

def Call.joins (call : Call T) (content : Content) (version : Nat) : Call T :=
  {call with point := if call.watch then .load content else .returned,heard := [(version,content)]}

def deliver (_ : Ended) : Ended := .returns

def State.next (s : State T) (hold : Hold) (content : Content) (version : Nat) (rest : List Nat) (ended : Ended) : State T :=
  match deliver ended with
  | .returns => s.hold (some {hold with stage := .tell content version rest .next})
  | .panics => s.hold none

section Steps
variable (env : Env T)

def step (s : State T) : Action → Option (State T)
  | .write content => some {s with history := s.history ++ [content]}
  | .push pushed => some {s with pushes := s.pushes ++ [(s.version,pushed)],sent := s.version}
  | .watch => some {s with calls := s.calls ++ [Call.start true]}
  | .onChange => some {s with calls := s.calls ++ [Call.start false]}
  | .takePush i => do
    let p ← s.pushes[i]?
    if s.w.mu = none then
      some ({s with pushes := s.pushes.eraseIdx i}.hold (some ⟨.push p.1 p.2,.fetch⟩))
    else none
  | .takeFollow c => do
    let call ← s.calls[c]?
    if s.w.mu = none ∧ call.point = .follow then
      some ((s.setCall c {call with point := .inside}).hold (some ⟨.follow c,.fetch⟩))
    else none
  | .fetch ok => do
    let hold ← s.w.mu
    match hold.stage,hold.caller with
    | .fetch,.push _ pushed =>
      -- the older of two pushes that overtook each other would win: the server is asked
      let read := if ok then some s.version else s.read
      some ({s with read := read}.applied hold.caller (if ok then s.server else pushed))
    | .fetch,.follow c => do
      let call ← s.calls[c]?
      if ok = false then some ((s.setCall c call.fails).hold none)
      else if s.w.listening then some ({s with read := some s.version}.applied hold.caller s.server)
      else some {s with
        read := some s.version
        w := {s.w with
          content := s.server
          sum := Nacosx.sum s.server
          mu := some {hold with stage := .listen s.server s.version}}}
    | _,_ => none
  | .listen ok => do
    let hold ← s.w.mu
    match hold.stage,hold.caller with
    | .listen content version,.follow c => do
      let call ← s.calls[c]?
      if ok then
        some ({s with w := {s.w with listening := true,subs := s.w.subs ++ [c],mu := none}}.setCall c
          (call.joins content version))
      else some ((s.setCall c call.fails).hold none)
    | _,_ => none
  | .tell ended => do
    let hold ← s.w.mu
    match hold.stage with
    | .tell content version (c::rest) .next => do
      let call ← s.calls[c]?
      let s := s.setCall c {call with heard := call.heard ++ [(version,content)]}
      if call.watch then some (s.hold (some {hold with stage := .tell content version (c::rest) .waits}))
      else some (s.next hold content version rest ended)
    | _ => none
  | .lock => do
    let hold ← s.w.mu
    match hold.stage with
    | .tell content version (c::rest) .waits => do
      let call ← s.calls[c]?
      if call.value.mu = none then
        some ((s.setCall c {call with value := {call.value with mu := some .told}}).hold
          (some {hold with stage := .tell content version (c::rest) .locked}))
      else none
    | _ => none
  | .change panics => do
    let hold ← s.w.mu
    match hold.stage with
    | .tell content version (c::rest) .locked => do
      let call ← s.calls[c]?
      let (v,calls,ended) := changed env (fun fn => if fn ∈ panics then .panics else .returns) call.value content
      some ((s.setCall c {call with
        value := {v with mu := none}
        log := call.log ++ .content content::calls}).next hold content version rest ended)
    | _ => none
  | .done => do
    let hold ← s.w.mu
    match hold.stage,hold.caller with
    | .tell _ _ [] .next,.push _ _ => some (s.hold none)
    | .tell content version [] .next,.follow c => do
      let call ← s.calls[c]?
      some ({s with w := {s.w with subs := s.w.subs ++ [c],mu := none}}.setCall c (call.joins content version))
    | _,_ => none
  | .load c => do
    let call ← s.calls[c]?
    match call.point with
    | .load content =>
      match load env call.value content with
      | .ok v => some (s.setCall c {call with
          point := .returned
          value := {v with mu := none}
          log := call.log ++ [.content content]})
      | .panics => some (s.setCall c {call with point := .panicked,value := {call.value with mu := none}})
      -- v.mu is still held, and unfollow wants w.mu
      | .missing | .err _ => some (s.setCall c {call with point := .unfollow})
    | _ => none
  | .unfollow c => do
    let call ← s.calls[c]?
    if s.w.mu = none ∧ call.point = .unfollow then
      some ({s with w := {s.w with subs := s.w.subs.erase c}}.setCall c call.fails)
    else none
  | .leave c => do
    let call ← s.calls[c]?
    if s.w.mu = none ∧ call.point = .returned then some {s with w := {s.w with subs := s.w.subs.erase c}} else none
  | .hook c => do
    let call ← s.calls[c]?
    if call.watch = true ∧ call.point = .returned ∧ call.value.mu = none then
      some (s.setCall c {call with
        value := call.value.onChange
        log := call.log ++ [.registered call.value.hooks.length]})
    else none

end Steps
end DevkitCommon.Nacosx
