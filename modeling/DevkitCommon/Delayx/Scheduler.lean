import DevkitCommon.Delayx.Task
import DevkitCommon.Lib.Machine
import DevkitCommon.Lib.Table
import Mathlib.Logic.Function.Basic

/-! The schedulers of any number of processes on one delayed_task table, statement by
statement. A replica is one process with one poller; a new process is a new number. The
choices the code does not make (which rows other sessions hold, whether the database
answers, what a handler does, which goroutine goes on) stand in the action. All clocks
agree, and a statement reads and writes at one instant. -/
namespace DevkitCommon.Delayx
open Machine

structure Spec where
  kind : String
  long : Bool
  timeout : Int
  deriving DecidableEq, Repr

/- fold is the collation of the table's text columns (utf8mb4_0900_ai_ci): two texts
are equal to MySQL when they fold to the same. -/
structure Env where
  cfg : Nat → Config
  specs : Nat → List Spec
  fold : String → String

inductive Phase where
  | waiting | dispatched | handling
  | returned (err : Option Bytes) (cause : Option Cause)
  | ended
  deriving DecidableEq

def Phase.active : Phase → Bool
  | .handling | .returned _ _ => true
  | _ => false

/- One claim of a row by RunOnce, until its run has written its outcome and its
heartbeat goroutine is gone. claim counts the claims of the row; the code has no such
number, and no definition here decides anything by it but the name of the run. -/
structure Run where
  replica : Nat
  task : Task
  claim : Nat
  phase : Phase
  startedAt : Int
  beatAt : Int
  beaten : Bool
  beating : Bool
  tracked : Bool
  cause : Option Cause
  deriving DecidableEq

def Run.isAt (id claim : Nat) (r : Run) : Bool := r.task.id == id && r.claim == claim
def Run.cancelWith (cause : Cause) (r : Run) : Run := {r with cause := some (r.cause.getD cause)}

inductive Stage where | reading | opened | committed | rolledBack
  deriving DecidableEq, Repr

/- A call of Abort. ids is what its read returned, todo what cancelLocal has not been
called for. existed and hit only record, for the statements about Abort: the rows of
that kind and key when the call took its last step so far, and the open ones among ids
at the update. -/
structure AbortCall where
  name : Nat
  replica : Nat
  kind : String
  key : String
  inTx : Bool
  ids : List Nat
  todo : List Nat
  stage : Stage
  existed : List Nat
  hit : List Nat
  deriving DecidableEq, Repr

/- What happened to handlers, one entry for each: started, finished with nil, or ended
without an outcome that counts an attempt (the process died or was stopping). -/
structure Journal where
  starts : List Nat
  nils : List Nat
  spared : List Nat
  deriving DecidableEq, Repr

structure State where
  now : Int
  rows : List Task
  nextId : Nat
  claims : Nat → Nat
  runs : List Run
  ctxDone : List Nat
  dead : List Nat
  aborts : List AbortCall
  views : List (Nat × List Task)
  journal : Journal

def State.init : State := ⟨0,[],1,fun _ => 0,[],[],[],[],[],⟨[],[],[]⟩⟩

def spec (env : Env) (r : Nat) (kind : String) : Option Spec :=
  (env.specs r).find? (fun sp => sp.kind == kind)

def isLong (env : Env) (x : Run) : Bool :=
  match spec env x.replica x.task.kind with
  | some sp => sp.long
  | none => false

def runTimeout (env : Env) (x : Run) : Int :=
  match spec env x.replica x.task.kind with
  | some sp => if sp.timeout ≤ 0 then (env.cfg x.replica).timeout else sp.timeout
  | none => (env.cfg x.replica).timeout

def State.locked (s : State) (id : Nat) : Bool :=
  s.aborts.any (fun c => c.stage == .opened && c.ids.contains id)

def updateRun (id claim : Nat) (f : Run → Run) (runs : List Run) : List Run :=
  Table.update (Run.isAt id claim) f runs

section Statements
variable (env : Env)

def schedule (s : State) (kind key : String) (runAt : Int) : Option State :=
  if kind = "" then none
  else some {s with
    rows := s.rows ++ [⟨s.nextId,kind,key,runAt,.pending,0,ByteArray.empty,none,s.now⟩]
    nextId := s.nextId + 1}

def named (kind key : String) (t : Task) : Bool :=
  env.fold t.kind == env.fold kind && env.fold t.key == env.fold key

def cancelRow (now : Int) (t : Task) : Task := {t with status := .cancelled, updatedAt := now}

def cancel (s : State) (kind key : String) : Option State :=
  some {s with
    rows := Table.update (fun t => named env kind key t && t.status == .pending)
      (cancelRow s.now) s.rows}

def taskIds (kind key : String) (rows : List Task) : List Nat :=
  (rows.filter (fun t => t.kind == kind && t.key == key)).map Task.id

/- A transaction under REPEATABLE READ answers its plain reads from the table as it was
at the first of them. -/
def view (s : State) (name : Nat) : Option State :=
  if s.views.any (fun v => v.1 == name) then none
  else some {s with views := s.views ++ [(name,s.rows)]}

def State.seen (s : State) (name : Nat) (inTx : Bool) : List Task :=
  if inTx then ((s.views.find? (fun v => v.1 == name)).map Prod.snd).getD s.rows else s.rows

def newCall (s : State) (name r : Nat) (kind key : String) (inTx : Bool) : AbortCall :=
  let ids := ((s.seen name inTx).filter (fun t => named env kind key t && t.status.isOpen)).map Task.id
  ⟨name,r,kind,key,inTx,ids,ids,if ids.isEmpty then .committed else .reading,
    taskIds kind key s.rows,[]⟩

def abortRead (s : State) (name r : Nat) (kind key : String) (inTx : Bool) : Option State :=
  if r ∈ s.dead ∨ s.aborts.any (fun c => c.name == name) then none
  else some {s with aborts := s.aborts ++ [newCall env s name r kind key inTx]}

def abortRow (now : Int) (t : Task) : Task :=
  {t with status := .cancelled, lockedAt := none, updatedAt := now}

def abortRows (ids : List Nat) (now : Int) (rows : List Task) : List Task :=
  Table.update (fun t => ids.contains t.id && t.status.isOpen) (abortRow now) rows

def setCall (c : AbortCall) (calls : List AbortCall) : List AbortCall :=
  Table.update (fun x => x.name == c.name) (fun _ => c) calls

def openIds (ids : List Nat) (rows : List Task) : List Nat :=
  (rows.filter (fun t => ids.contains t.id && t.status.isOpen)).map Task.id

def abortUpdate (s : State) (name : Nat) : Option State := do
  let c ← s.aborts.find? (fun c => c.name == name)
  if c.stage = .reading then
    let hit := openIds c.ids s.rows
    if c.inTx then some {s with aborts := setCall {c with stage := .opened, hit := hit} s.aborts}
    else some {s with
      rows := abortRows c.ids s.now s.rows
      aborts := setCall {c with stage := .committed, hit := hit} s.aborts}
  else none

def cancelLocal (s : State) (name : Nat) : Option State := do
  let c ← s.aborts.find? (fun c => c.name == name)
  match c.todo with
  | [] => none
  | id::rest =>
    if c.stage = .reading then none
    else some {s with
      runs := Table.update (fun x => x.replica == c.replica && x.task.id == id && x.tracked)
        (Run.cancelWith .aborted) s.runs
      aborts := setCall {c with todo := rest, existed := taskIds c.kind c.key s.rows} s.aborts}

def commit (s : State) (name : Nat) : Option State := do
  let c ← s.aborts.find? (fun c => c.name == name)
  if c.stage = .opened ∧ c.todo = [] then
    some {s with
      rows := abortRows c.ids s.now s.rows
      aborts := setCall {c with stage := .committed, existed := taskIds c.kind c.key s.rows} s.aborts}
  else none

def rollback (s : State) (name : Nat) : Option State := do
  let c ← s.aborts.find? (fun c => c.name == name)
  if c.stage = .opened then
    some {s with aborts := setCall {c with stage := .rolledBack} s.aborts}
  else none

def due (r : Nat) (now : Int) (long : Bool) (t : Task) : Bool :=
  (env.specs r).any (fun sp => sp.long == long && env.fold sp.kind == env.fold t.kind) &&
  ((t.status == .pending && decide (t.runAt ≤ now)) ||
   (t.status == .running && match t.lockedAt with
     | some l => decide (l < now - (env.cfg r).stale)
     | none => false))

def InOrder (rows : List Task) (ids : List Nat) : Prop :=
  ids.Pairwise fun i j => ∀ t ∈ rows, ∀ u ∈ rows, t.id = i → u.id = j → t.runAt ≤ u.runAt
instance (rows ids) : Decidable (InOrder rows ids) := by unfold InOrder; infer_instance

/- A row of the answer set that was neither taken nor held by others was cut by LIMIT. -/
def CutByLimit (rows : List Task) (wanted : Task → Bool) (limit : Int) (skipped ids : List Nat) : Prop :=
  ∀ t ∈ rows, wanted t = true → t.id ∉ ids → t.id ∉ skipped →
    (ids.length : Int) = limit ∧ ∀ u ∈ rows, u.id ∈ ids → u.runAt ≤ t.runAt
instance (rows wanted limit skipped ids) : Decidable (CutByLimit rows wanted limit skipped ids) := by
  unfold CutByLimit; infer_instance

/- ORDER BY run_at LIMIT limit FOR UPDATE SKIP LOCKED, ties in any order; skipped are the
rows other sessions hold at that moment. -/
def Selects (rows : List Task) (wanted : Task → Bool) (limit : Int) (skipped ids : List Nat) : Prop :=
  ids.Nodup ∧ (ids.length : Int) ≤ limit ∧
  (∀ i ∈ ids, i ∉ skipped ∧ ∃ t ∈ rows, t.id = i ∧ wanted t = true) ∧
  InOrder rows ids ∧ CutByLimit rows wanted limit skipped ids
instance (rows wanted limit skipped ids) : Decidable (Selects rows wanted limit skipped ids) := by
  unfold Selects; infer_instance

def claimRow (now written : Int) (t : Task) : Task :=
  {t with status := .running, lockedAt := some now, updatedAt := written}

def claimOne (r : Nat) (now : Int) (s : State) (id : Nat) : State :=
  match s.rows.find? (fun t => t.id == id) with
  | none => s
  | some t => {s with
      rows := Table.update (fun t => t.id == id) (claimRow now s.now) s.rows
      claims := Function.update s.claims id (s.claims id + 1)
      runs := s.runs ++ [⟨r,claimRow now s.now t,s.claims id + 1,.waiting,0,0,false,false,false,none⟩]}

def pollerBusy (s : State) (r : Nat) : Bool :=
  s.runs.any (fun x => x.replica == r && x.phase.active && !isLong env x)

def freeWorkers (s : State) (r : Nat) : Int :=
  (env.cfg r).longWorkers -
    (s.runs.filter (fun x => x.replica == r && (x.phase.active || x.phase == .dispatched) &&
      isLong env x)).length

def SelectsLong (s : State) (r : Nat) (now : Int) (skipped long : List Nat) : Prop :=
  if 0 < freeWorkers env s r
    then Selects s.rows (due env r now true) (freeWorkers env s r) skipped long
    else long = []
instance (s r now skipped long) : Decidable (SelectsLong env s r now skipped long) := by
  unfold SelectsLong; infer_instance

/- What a round finds: the poller is free, its context is not over, now was read before
the transaction began, and short and long are answers of the two queries. -/
def Round (s : State) (r : Nat) (now : Int) (short long skipped : List Nat) : Prop :=
  r ∉ s.dead ∧ r ∉ s.ctxDone ∧ now ≤ s.now ∧
  ¬ s.runs.any (fun x => x.replica == r && x.phase == .waiting) ∧ ¬ pollerBusy env s r ∧
  Selects s.rows (due env r now false) (env.cfg r).batch skipped short ∧
  SelectsLong env s r now skipped long
instance (s r now short long skipped) : Decidable (Round env s r now short long skipped) := by
  unfold Round; infer_instance

def runOnce (s : State) (r : Nat) (now : Int) (short long skipped : List Nat) : Option State :=
  if Round env s r now short long skipped then
    some ((short ++ long).foldl (claimOne r now) s)
  else none

def nextInBatch (s : State) (x : Run) : Bool :=
  s.runs.find? (fun y => y.replica == x.replica && y.phase == .waiting) == some x &&
  !pollerBusy env s x.replica

def dispatch (s : State) (id claim : Nat) : Option State := do
  let x ← s.runs.find? (Run.isAt id claim)
  if x.phase = .waiting ∧ isLong env x ∧ nextInBatch env s x then
    some {s with runs := updateRun id claim (fun x => {x with phase := .dispatched}) s.runs}
  else none

/- track: the entry of s.running for this id now belongs to this run. -/
def begin (s : State) (x : Run) : State :=
  {s with
    runs := updateRun x.task.id x.claim (fun y => {y with
        phase := .handling, startedAt := s.now, beatAt := s.now, beating := true, tracked := true,
        cause := if x.replica ∈ s.ctxDone then some .canceled else none})
      (Table.update (fun y => y.replica == x.replica && y.task.id == x.task.id)
        (fun y => {y with tracked := false}) s.runs)
    journal := {s.journal with starts := s.journal.starts ++ [x.task.id]}}

def noHandlerFields (kind : String) : Fields := ⟨.pending,none,noHandler kind,none⟩

def writeOutcome (id : Nat) (f : Fields) (now : Int) (rows : List Task) : List Task :=
  Table.update (fun t => t.id == id && t.status == .running) (f.write now) rows

def start (s : State) (id claim : Nat) (reachable : Bool) : Option State := do
  let x ← s.runs.find? (Run.isAt id claim)
  if x.phase = .dispatched ∨ (x.phase = .waiting ∧ ¬ isLong env x ∧ nextInBatch env s x) then
    match spec env x.replica x.task.kind with
    | some _ => some (begin s x)
    | none =>
      let f := noHandlerFields x.task.kind
      some {s with
        rows := if accepted reachable (bookkeeping s.now) s.now f.lastError
          then writeOutcome id f s.now s.rows else s.rows
        runs := updateRun id claim (fun x => {x with phase := .ended}) s.runs}
  else none

def beatRow (now : Int) (t : Task) : Task := {t with lockedAt := some now, updatedAt := now}

/- One tick of the heartbeat goroutine. No row changed means the row is no longer
running, and the run's context is ended. -/
def beat (s : State) (id claim : Nat) (reachable : Bool) : Option State := do
  let x ← s.runs.find? (Run.isAt id claim)
  if x.beating then
    if reachable then
      if s.rows.any (fun t => t.id == id && t.status == .running) then
        some {s with
          rows := Table.update (fun t => t.id == id && t.status == .running) (beatRow s.now) s.rows
          runs := updateRun id claim (fun x => {x with beatAt := s.now, beaten := true}) s.runs}
      else some {s with
        runs := updateRun id claim (fun x => {x.cancelWith .aborted with beating := false}) s.runs}
    else some s
  else none

def beatExit (s : State) (id claim : Nat) : Option State := do
  let x ← s.runs.find? (Run.isAt id claim)
  if x.beating ∧ (x.cause ≠ none ∨ x.phase ≠ .handling) then
    some {s with runs := updateRun id claim (fun x => {x with beating := false}) s.runs}
  else none

def deadline (s : State) (id claim : Nat) : Option State := do
  let x ← s.runs.find? (Run.isAt id claim)
  if x.phase = .handling ∧ x.startedAt + runTimeout env x ≤ s.now then
    some {s with runs := updateRun id claim (Run.cancelWith .deadline) s.runs}
  else none

def handlerReturn (s : State) (id claim : Nat) (h : Handled) : Option State := do
  let x ← s.runs.find? (Run.isAt id claim)
  if x.phase = .handling then
    some {s with
      runs := updateRun id claim
        (fun y => {y.cancelWith .canceled with phase := .returned (safely h) x.cause})
        (Table.update (fun y => y.replica == x.replica && y.task.id == id)
          (fun y => {y with tracked := false}) s.runs)}
  else none

def outcomeOf (s : State) (x : Run) (err : Option Bytes) (cause : Option Cause) : Fields :=
  outcomeFields (env.cfg x.replica) x.task s.now err cause (s.ctxDone.contains x.replica)

def outcomeAccepted (s : State) (x : Run) (f : Fields) (reachable : Bool) : Bool :=
  accepted reachable (bookkeeping x.startedAt) s.now f.lastError

def Journal.finished (j : Journal) (id : Nat) (err : Option Bytes) (f : Fields) : Journal :=
  if err = none then {j with nils := j.nils ++ [id]}
  else if f.status = .pending ∧ f.attempts = none then {j with spared := j.spared ++ [id]}
  else j

def outcome (s : State) (id claim : Nat) (reachable : Bool) : Option State := do
  let x ← s.runs.find? (Run.isAt id claim)
  match x.phase with
  | .returned err cause =>
    let f := outcomeOf env s x err cause
    some {s with
      rows := if outcomeAccepted s x f reachable then writeOutcome id f s.now s.rows else s.rows
      runs := updateRun id claim (fun x => {x with phase := .ended}) s.runs
      journal := s.journal.finished id err f}
  | _ => none

def stopRuns (s : State) (r : Nat) : Option State :=
  some {s with
    runs := Table.update (fun x => x.replica == r && x.tracked) (Run.cancelWith .shutdown) s.runs}

def stopPoller (s : State) (r : Nat) : Option State :=
  some {s with
    ctxDone := r::s.ctxDone
    runs := Table.update (fun x => x.replica == r && x.phase == .handling)
      (Run.cancelWith .canceled) s.runs}

def crash (s : State) (r : Nat) : Option State :=
  some {s with
    dead := r::s.dead
    runs := s.runs.filter (fun x => x.replica != r)
    aborts := s.aborts.filter (fun c => c.replica != r || c.stage == .committed)
    journal := {s.journal with spared := s.journal.spared ++
      ((s.runs.filter (fun x => x.replica == r && x.phase.active)).map (fun x => x.task.id))}}

def expired (r : Nat) (now : Int) (t : Task) : Bool :=
  (env.specs r).any (fun sp => env.fold sp.kind == env.fold t.kind) &&
  (t.status == .done || t.status == .cancelled) &&
  decide (t.updatedAt < now - (env.cfg r).retention)

def cleanup (s : State) (r : Nat) (ids : List Nat) : Option State :=
  if r ∉ s.dead ∧ r ∉ s.ctxDone ∧ ids.length ≤ 10000 ∧
      (∀ i ∈ ids, ∃ t ∈ s.rows, t.id = i ∧ expired env r s.now t = true) ∧
      (ids.length = 10000 ∨ ∀ t ∈ s.rows, expired env r s.now t = true → t.id ∈ ids) then
    some {s with rows := Table.delete (fun t => ids.contains t.id && expired env r s.now t) s.rows}
  else none

end Statements

inductive Action where
  | tick (d : Nat)
  | schedule (kind key : String) (runAt : Int)
  | cancel (kind key : String)
  | view (name : Nat)
  | abortRead (name replica : Nat) (kind key : String) (inTx : Bool)
  | abortUpdate (name : Nat)
  | cancelLocal (name : Nat)
  | commit (name : Nat)
  | rollback (name : Nat)
  | runOnce (replica : Nat) (now : Int) (short long skipped : List Nat)
  | dispatch (id claim : Nat)
  | start (id claim : Nat) (reachable : Bool)
  | beat (id claim : Nat) (reachable : Bool)
  | beatExit (id claim : Nat)
  | deadline (id claim : Nat)
  | handlerReturn (id claim : Nat) (h : Handled)
  | outcome (id claim : Nat) (reachable : Bool)
  | stopRuns (replica : Nat)
  | stopPoller (replica : Nat)
  | crash (replica : Nat)
  | cleanup (replica : Nat) (ids : List Nat)
  deriving DecidableEq

def unhandled (env : Env) (s : State) (id claim : Nat) : Bool :=
  s.runs.any (fun x => x.isAt id claim && (spec env x.replica x.task.kind).isNone)

def touches (env : Env) (s : State) : Action → List Nat
  | .cancel kind key =>
    (s.rows.filter (fun t => named env kind key t && t.status == .pending)).map Task.id
  | .abortUpdate name => ((s.aborts.find? (fun c => c.name == name)).map AbortCall.ids).getD []
  | .runOnce _ _ short long _ => short ++ long
  | .start id claim true => if unhandled env s id claim then [id] else []
  | .beat id _ true => [id]
  | .outcome id _ true => [id]
  | .cleanup _ ids => ids
  | _ => []

def perform (env : Env) (s : State) : Action → Option State
  | .tick d => some {s with now := s.now + d}
  | .schedule kind key runAt => schedule s kind key runAt
  | .cancel kind key => cancel env s kind key
  | .view name => view s name
  | .abortRead name r kind key inTx => abortRead env s name r kind key inTx
  | .abortUpdate name => abortUpdate s name
  | .cancelLocal name => cancelLocal s name
  | .commit name => commit s name
  | .rollback name => rollback s name
  | .runOnce r now short long skipped => runOnce env s r now short long skipped
  | .dispatch id claim => dispatch env s id claim
  | .start id claim reachable => start env s id claim reachable
  | .beat id claim reachable => beat s id claim reachable
  | .beatExit id claim => beatExit s id claim
  | .deadline id claim => deadline env s id claim
  | .handlerReturn id claim h => handlerReturn s id claim h
  | .outcome id claim reachable => outcome env s id claim reachable
  | .stopRuns r => stopRuns s r
  | .stopPoller r => stopPoller s r
  | .crash r => crash s r
  | .cleanup r ids => cleanup env s r ids

def step (env : Env) (s : State) (a : Action) : Option State :=
  if (touches env s a).any s.locked then none else perform env s a

def reports (timeout : Int) : Env :=
  ⟨fun _ => ⟨0,0,0,0,0,0⟩,fun _ => [⟨"report",false,timeout⟩],id⟩

end DevkitCommon.Delayx
