import DevkitCommon.Delayx.Scheduler

/-! What one step can do, said once: to a row of the table, to a run of a process. The
invariants of the other modules are case analyses of these two relations. -/
namespace DevkitCommon.Delayx
open Machine

def Run.name (x : Run) : Nat × Nat := (x.task.id,x.claim)

theorem isAtName {id claim : Nat} {x : Run} : x.isAt id claim = true ↔ x.name = (id,claim) := by
  simp [Run.isAt,Run.name]

theorem foundRun {s : State} {id claim : Nat} {x : Run}
    (found : s.runs.find? (Run.isAt id claim) = some x) :
    x ∈ s.runs ∧ x.task.id = id ∧ x.claim = claim := by
  have name := isAtName.mp (List.find?_some found)
  exact ⟨List.mem_of_find?_eq_some found,congrArg Prod.fst name,congrArg Prod.snd name⟩

theorem foundCall {s : State} {name : Nat} {c : AbortCall}
    (found : s.aborts.find? (fun c => c.name == name) = some c) :
    c ∈ s.aborts ∧ c.name = name :=
  ⟨List.mem_of_find?_eq_some found,by simpa using List.find?_some found⟩

theorem stepPerforms {env s a t} (ok : step env s a = some t) :
    perform env s a = some t ∧ ∀ id ∈ touches env s a, s.locked id = false := by
  simp only [step] at ok
  split at ok
  · contradiction
  · rename_i free
    refine ⟨ok,fun id mem => ?_⟩
    cases h : s.locked id with
    | false => rfl
    | true => exact absurd (List.any_eq_true.mpr ⟨id,mem,h⟩) free

inductive Does (env : Env) (s : State) : Action → State → Prop where
  | tick (d : Nat) : Does env s (.tick d) {s with now := s.now + d}
  | schedule {kind key runAt} (named : kind ≠ "") : Does env s (.schedule kind key runAt) {s with
      rows := s.rows ++ [⟨s.nextId,kind,key,runAt,.pending,0,ByteArray.empty,none,s.now⟩]
      nextId := s.nextId + 1}
  | cancel (kind key) : Does env s (.cancel kind key) {s with
      rows := Table.update (fun t => named env kind key t && t.status == .pending)
        (cancelRow s.now) s.rows}
  | view {name} (new : ∀ v ∈ s.views, v.1 ≠ name) :
      Does env s (.view name) {s with views := s.views ++ [(name,s.rows)]}
  | abortRead {name r kind key inTx} (alive : r ∉ s.dead) (new : ∀ c ∈ s.aborts, c.name ≠ name) :
      Does env s (.abortRead name r kind key inTx)
        {s with aborts := s.aborts ++ [newCall env s name r kind key inTx]}
  | abortOpens {c} (call : c ∈ s.aborts) (reading : c.stage = .reading) (tx : c.inTx = true) :
      Does env s (.abortUpdate c.name) {s with
        aborts := setCall {c with stage := .opened, hit := openIds c.ids s.rows} s.aborts}
  | abortWrites {c} (call : c ∈ s.aborts) (reading : c.stage = .reading) (plain : c.inTx = false) :
      Does env s (.abortUpdate c.name) {s with
        rows := abortRows c.ids s.now s.rows
        aborts := setCall {c with stage := .committed, hit := openIds c.ids s.rows} s.aborts}
  | cancelLocal {c id rest} (call : c ∈ s.aborts) (todo : c.todo = id::rest) (past : c.stage ≠ .reading) :
      Does env s (.cancelLocal c.name) {s with
        runs := Table.update (fun x => x.replica == c.replica && x.task.id == id && x.tracked)
          (Run.cancelWith .aborted) s.runs
        aborts := setCall {c with todo := rest, existed := taskIds c.kind c.key s.rows} s.aborts}
  | commit {c} (call : c ∈ s.aborts) (opened : c.stage = .opened) (returned : c.todo = []) :
      Does env s (.commit c.name) {s with
        rows := abortRows c.ids s.now s.rows
        aborts := setCall {c with stage := .committed, existed := taskIds c.kind c.key s.rows} s.aborts}
  | rollback {c} (call : c ∈ s.aborts) (opened : c.stage = .opened) :
      Does env s (.rollback c.name) {s with aborts := setCall {c with stage := .rolledBack} s.aborts}
  | runOnce {r now short long skipped} (round : Round env s r now short long skipped) :
      Does env s (.runOnce r now short long skipped) ((short ++ long).foldl (claimOne r now) s)
  | dispatch {x} (run : x ∈ s.runs) (waiting : x.phase = .waiting) (long : isLong env x = true)
      (next : nextInBatch env s x = true) :
      Does env s (.dispatch x.task.id x.claim)
        {s with runs := updateRun x.task.id x.claim (fun x => {x with phase := .dispatched}) s.runs}
  | begin {x sp reachable} (run : x ∈ s.runs) (waiting : x.phase = .waiting ∨ x.phase = .dispatched)
      (handler : spec env x.replica x.task.kind = some sp) :
      Does env s (.start x.task.id x.claim reachable) (begin s x)
  | unhandled {x reachable} (run : x ∈ s.runs) (waiting : x.phase = .waiting ∨ x.phase = .dispatched)
      (missing : spec env x.replica x.task.kind = none) :
      Does env s (.start x.task.id x.claim reachable) {s with
        rows := if accepted reachable (bookkeeping s.now) s.now (noHandlerFields x.task.kind).lastError
          then writeOutcome x.task.id (noHandlerFields x.task.kind) s.now s.rows else s.rows
        runs := updateRun x.task.id x.claim (fun x => {x with phase := .ended}) s.runs}
  | beaten {x} (run : x ∈ s.runs) (beating : x.beating = true)
      (row : ∃ t ∈ s.rows, t.id = x.task.id ∧ t.status = .running) :
      Does env s (.beat x.task.id x.claim true) {s with
        rows := Table.update (fun t => t.id == x.task.id && t.status == .running) (beatRow s.now) s.rows
        runs := updateRun x.task.id x.claim (fun x => {x with beatAt := s.now, beaten := true}) s.runs}
  | lost {x} (run : x ∈ s.runs) (beating : x.beating = true)
      (row : ∀ t ∈ s.rows, t.id = x.task.id → t.status ≠ .running) :
      Does env s (.beat x.task.id x.claim true) {s with
        runs := updateRun x.task.id x.claim (fun x => {x.cancelWith .aborted with beating := false}) s.runs}
  | beatFails {x} (run : x ∈ s.runs) (beating : x.beating = true) :
      Does env s (.beat x.task.id x.claim false) s
  | beatExit {x} (run : x ∈ s.runs) (beating : x.beating = true)
      (isOver : x.cause ≠ none ∨ x.phase ≠ .handling) :
      Does env s (.beatExit x.task.id x.claim)
        {s with runs := updateRun x.task.id x.claim (fun x => {x with beating := false}) s.runs}
  | deadline {x} (run : x ∈ s.runs) (handling : x.phase = .handling)
      (isOver : x.startedAt + runTimeout env x ≤ s.now) :
      Does env s (.deadline x.task.id x.claim)
        {s with runs := updateRun x.task.id x.claim (Run.cancelWith .deadline) s.runs}
  | handlerReturn {x} (h : Handled) (run : x ∈ s.runs) (handling : x.phase = .handling) :
      Does env s (.handlerReturn x.task.id x.claim h) {s with
        runs := updateRun x.task.id x.claim
          (fun y => {y.cancelWith .canceled with phase := .returned (safely h) x.cause})
          (Table.update (fun y => y.replica == x.replica && y.task.id == x.task.id)
            (fun y => {y with tracked := false}) s.runs)}
  | outcome {x err cause reachable} (run : x ∈ s.runs) (back : x.phase = .returned err cause) :
      Does env s (.outcome x.task.id x.claim reachable) {s with
        rows := if outcomeAccepted s x (outcomeOf env s x err cause) reachable
          then writeOutcome x.task.id (outcomeOf env s x err cause) s.now s.rows else s.rows
        runs := updateRun x.task.id x.claim (fun x => {x with phase := .ended}) s.runs
        journal := s.journal.finished x.task.id err (outcomeOf env s x err cause)}
  | stopRuns (r) : Does env s (.stopRuns r) {s with
      runs := Table.update (fun x => x.replica == r && x.tracked) (Run.cancelWith .shutdown) s.runs}
  | stopPoller (r) : Does env s (.stopPoller r) {s with
      ctxDone := r::s.ctxDone
      runs := Table.update (fun x => x.replica == r && x.phase == .handling)
        (Run.cancelWith .canceled) s.runs}
  | crash (r) : Does env s (.crash r) {s with
      dead := r::s.dead
      runs := s.runs.filter (fun x => x.replica != r)
      aborts := s.aborts.filter (fun c => c.replica != r || c.stage == .committed)
      journal := {s.journal with spared := s.journal.spared ++
        ((s.runs.filter (fun x => x.replica == r && x.phase.active)).map (fun x => x.task.id))}}
  | cleanup {r ids} (alive : r ∉ s.dead) (running : r ∉ s.ctxDone) (limit : ids.length ≤ 10000)
      (old : ∀ i ∈ ids, ∃ t ∈ s.rows, t.id = i ∧ expired env r s.now t = true)
      (all : ids.length = 10000 ∨ ∀ t ∈ s.rows, expired env r s.now t = true → t.id ∈ ids) :
      Does env s (.cleanup r ids) {s with
        rows := Table.delete (fun t => ids.contains t.id && expired env r s.now t) s.rows}

theorem onRun {s t : State} {id claim : Nat} {f : Run → Option State}
    (ok : (s.runs.find? (Run.isAt id claim)).bind f = some t) :
    ∃ x ∈ s.runs, x.task.id = id ∧ x.claim = claim ∧ f x = some t := by
  obtain ⟨x,found,last⟩ := Option.bind_eq_some_iff.mp ok
  obtain ⟨run,id,claim⟩ := foundRun found
  exact ⟨x,run,id,claim,last⟩

theorem onCall {s t : State} {name : Nat} {f : AbortCall → Option State}
    (ok : (s.aborts.find? (fun c => c.name == name)).bind f = some t) :
    ∃ c ∈ s.aborts, c.name = name ∧ f c = some t := by
  obtain ⟨c,found,last⟩ := Option.bind_eq_some_iff.mp ok
  obtain ⟨call,name⟩ := foundCall found
  exact ⟨c,call,name,last⟩

section Statements
variable {env : Env} {s t : State} {name r id claim : Nat} {reachable : Bool}

theorem scheduleDoes {kind key : String} {runAt : Int} (ok : schedule s kind key runAt = some t) :
    Does env s (.schedule kind key runAt) t := by
  simp only [schedule] at ok
  split at ok <;> try contradiction
  cases Option.some.inj ok
  exact .schedule (by assumption)

theorem viewDoes (ok : view s name = some t) : Does env s (.view name) t := by
  simp only [view] at ok
  split at ok <;> try contradiction
  rename_i new
  cases Option.some.inj ok
  exact .view (fun v mem same => new (List.any_eq_true.mpr ⟨v,mem,by simpa using same⟩))

theorem abortReadDoes {kind key : String} {inTx : Bool} (ok : abortRead env s name r kind key inTx = some t) :
    Does env s (.abortRead name r kind key inTx) t := by
  simp only [abortRead] at ok
  split at ok <;> try contradiction
  rename_i guard
  obtain ⟨alive,new⟩ := not_or.mp guard
  cases Option.some.inj ok
  exact .abortRead alive (fun c call same => new (List.any_eq_true.mpr ⟨c,call,by simpa using same⟩))

theorem abortUpdateDoes (ok : abortUpdate s name = some t) : Does env s (.abortUpdate name) t := by
  obtain ⟨c,call,rfl,last⟩ := onCall ok
  split at last <;> try contradiction
  rename_i reading
  simp only at last
  split at last
  · cases Option.some.inj last
    exact .abortOpens call reading (by assumption)
  · rename_i plain
    cases Option.some.inj last
    exact .abortWrites call reading (by simpa using plain)

theorem cancelLocalDoes (ok : cancelLocal s name = some t) : Does env s (.cancelLocal name) t := by
  obtain ⟨c,call,rfl,last⟩ := onCall ok
  split at last <;> try contradiction
  rename_i todo
  split at last <;> try contradiction
  cases Option.some.inj last
  exact .cancelLocal call todo (by assumption)

theorem commitDoes (ok : commit s name = some t) : Does env s (.commit name) t := by
  obtain ⟨c,call,rfl,last⟩ := onCall ok
  split at last <;> try contradiction
  rename_i guard
  cases Option.some.inj last
  exact .commit call guard.1 guard.2

theorem rollbackDoes (ok : rollback s name = some t) : Does env s (.rollback name) t := by
  obtain ⟨c,call,rfl,last⟩ := onCall ok
  split at last <;> try contradiction
  cases Option.some.inj last
  exact .rollback call (by assumption)

theorem runOnceDoes {now : Int} {short long skipped : List Nat}
    (ok : runOnce env s r now short long skipped = some t) : Does env s (.runOnce r now short long skipped) t := by
  simp only [runOnce] at ok
  split at ok <;> try contradiction
  cases Option.some.inj ok
  exact .runOnce (by assumption)

theorem dispatchDoes (ok : dispatch env s id claim = some t) : Does env s (.dispatch id claim) t := by
  obtain ⟨x,run,rfl,rfl,last⟩ := onRun ok
  split at last <;> try contradiction
  rename_i guard
  cases Option.some.inj last
  exact .dispatch run guard.1 guard.2.1 guard.2.2

theorem startDoes (ok : start env s id claim reachable = some t) : Does env s (.start id claim reachable) t := by
  obtain ⟨x,run,rfl,rfl,last⟩ := onRun ok
  split at last <;> try contradiction
  rename_i guard
  have waiting : x.phase = .waiting ∨ x.phase = .dispatched := by
    rcases guard with h | h
    · exact .inr h
    · exact .inl h.1
  split at last
  · cases Option.some.inj last
    exact .begin run waiting (by assumption)
  · cases Option.some.inj last
    exact .unhandled run waiting (by assumption)

theorem beatDoes (ok : beat s id claim reachable = some t) : Does env s (.beat id claim reachable) t := by
  obtain ⟨x,run,rfl,rfl,last⟩ := onRun ok
  split at last <;> try contradiction
  rename_i beating
  cases reachable with
  | false =>
    cases Option.some.inj last
    exact .beatFails run beating
  | true =>
    simp only [if_true] at last
    split at last
    · rename_i row
      cases Option.some.inj last
      exact .beaten run beating (by simpa using row)
    · rename_i row
      cases Option.some.inj last
      exact .lost run beating (by simpa using row)

theorem beatExitDoes (ok : beatExit s id claim = some t) : Does env s (.beatExit id claim) t := by
  obtain ⟨x,run,rfl,rfl,last⟩ := onRun ok
  split at last <;> try contradiction
  rename_i guard
  cases Option.some.inj last
  exact .beatExit run guard.1 guard.2

theorem deadlineDoes (ok : deadline env s id claim = some t) : Does env s (.deadline id claim) t := by
  obtain ⟨x,run,rfl,rfl,last⟩ := onRun ok
  split at last <;> try contradiction
  rename_i guard
  cases Option.some.inj last
  exact .deadline run guard.1 guard.2

theorem handlerReturnDoes {h : Handled} (ok : handlerReturn s id claim h = some t) :
    Does env s (.handlerReturn id claim h) t := by
  obtain ⟨x,run,rfl,rfl,last⟩ := onRun ok
  split at last <;> try contradiction
  cases Option.some.inj last
  exact .handlerReturn h run (by assumption)

theorem outcomeDoes (ok : outcome env s id claim reachable = some t) :
    Does env s (.outcome id claim reachable) t := by
  obtain ⟨x,run,rfl,rfl,last⟩ := onRun ok
  split at last <;> try contradiction
  cases Option.some.inj last
  exact .outcome run (by assumption)

theorem cleanupDoes {ids : List Nat} (ok : cleanup env s r ids = some t) : Does env s (.cleanup r ids) t := by
  simp only [cleanup] at ok
  split at ok <;> try contradiction
  rename_i guard
  obtain ⟨alive,running,limit,old,all⟩ := guard
  cases Option.some.inj ok
  exact .cleanup alive running limit old all

theorem performDoes {a : Action} (ok : perform env s a = some t) : Does env s a t := by
  cases a with
  | tick d => cases Option.some.inj ok; exact .tick d
  | schedule => exact scheduleDoes ok
  | cancel kind key => cases Option.some.inj ok; exact .cancel kind key
  | view => exact viewDoes ok
  | abortRead => exact abortReadDoes ok
  | abortUpdate => exact abortUpdateDoes ok
  | cancelLocal => exact cancelLocalDoes ok
  | commit => exact commitDoes ok
  | rollback => exact rollbackDoes ok
  | runOnce => exact runOnceDoes ok
  | dispatch => exact dispatchDoes ok
  | start => exact startDoes ok
  | beat => exact beatDoes ok
  | beatExit => exact beatExitDoes ok
  | deadline => exact deadlineDoes ok
  | handlerReturn => exact handlerReturnDoes ok
  | outcome => exact outcomeDoes ok
  | stopRuns r => cases Option.some.inj ok; exact .stopRuns r
  | stopPoller r => cases Option.some.inj ok; exact .stopPoller r
  | crash r => cases Option.some.inj ok; exact .crash r
  | cleanup => exact cleanupDoes ok

end Statements

theorem stepDoes {env s a t} (ok : step env s a = some t) : Does env s a t :=
  performDoes (stepPerforms ok).1

theorem claimOneRows (r : Nat) (now : Int) (s : State) (id : Nat) :
    (claimOne r now s id).rows = Table.update (fun t => t.id == id) (claimRow now s.now) s.rows := by
  unfold claimOne
  split
  · rename_i none
    exact (Table.updateNone (fun x mem => by simpa using List.find?_eq_none.mp none x mem)).symm
  · rfl

@[simp] theorem claimOneNow (r : Nat) (now : Int) (s : State) (id : Nat) :
    (claimOne r now s id).now = s.now := by
  unfold claimOne; split <;> rfl

theorem claimTwice (now written : Int) (ids : List Nat) (id : Nat) (rows : List Task) :
    Table.update (fun t => ids.contains t.id) (claimRow now written)
      (Table.update (fun t => t.id == id) (claimRow now written) rows) =
    Table.update (fun t => (id::ids).contains t.id) (claimRow now written) rows := by
  simp only [Table.update,List.map_map]
  refine List.map_congr_left (fun t _ => ?_)
  by_cases one : t.id = id <;> by_cases many : t.id ∈ ids <;>
    simp_all [claimRow]

theorem claimedRows (r : Nat) (now : Int) (ids : List Nat) (s : State) :
    (ids.foldl (claimOne r now) s).rows =
      Table.update (fun t => ids.contains t.id) (claimRow now s.now) s.rows := by
  induction ids generalizing s with
  | nil => exact (Table.updateNone (fun _ _ => rfl)).symm
  | cons id rest ih =>
    rw [List.foldl_cons,ih,claimOneRows,claimOneNow,claimTwice]

theorem claimedRest (r : Nat) (now : Int) (ids : List Nat) (s : State) :
    (ids.foldl (claimOne r now) s).now = s.now ∧ (ids.foldl (claimOne r now) s).nextId = s.nextId ∧
    (ids.foldl (claimOne r now) s).ctxDone = s.ctxDone ∧ (ids.foldl (claimOne r now) s).dead = s.dead ∧
    (ids.foldl (claimOne r now) s).aborts = s.aborts ∧ (ids.foldl (claimOne r now) s).journal = s.journal ∧
    (ids.foldl (claimOne r now) s).views = s.views := by
  induction ids generalizing s with
  | nil => simp
  | cons id rest ih =>
    have one : (claimOne r now s id).now = s.now ∧ (claimOne r now s id).nextId = s.nextId ∧
        (claimOne r now s id).ctxDone = s.ctxDone ∧ (claimOne r now s id).dead = s.dead ∧
        (claimOne r now s id).aborts = s.aborts ∧ (claimOne r now s id).journal = s.journal ∧
        (claimOne r now s id).views = s.views := by
      unfold claimOne; split <;> simp
    simpa only [List.foldl_cons,one] using ih (claimOne r now s id)

structure NewRun (s : State) (r : Nat) (now : Int) (ids : List Nat) (n : Run) : Prop where
  shape : ∃ x ∈ s.rows, n = ⟨r,claimRow now s.now x,n.claim,.waiting,0,0,false,false,false,none⟩
  chosen : n.task.id ∈ ids
  later : s.claims n.task.id < n.claim

theorem claimedRuns (r : Nat) (now : Int) (ids : List Nat) (s : State) :
    ∀ n ∈ (ids.foldl (claimOne r now) s).runs, n ∈ s.runs ∨ NewRun s r now ids n := by
  induction ids generalizing s with
  | nil => exact fun n mem => .inl mem
  | cons id rest ih =>
    intro n mem
    rw [List.foldl_cons] at mem
    rcases ih _ n mem with old | ⟨⟨x,hx,shape⟩,chosen,later⟩
    · simp only [claimOne] at old
      split at old
      · exact .inl old
      · rename_i t found
        rcases List.mem_append.mp old with old | new
        · exact .inl old
        · obtain rfl := List.mem_singleton.mp new
          have same : t.id = id := by simpa using List.find?_some found
          refine .inr ⟨⟨t,List.mem_of_find?_eq_some found,rfl⟩,?_,?_⟩
          · simp [claimRow,same]
          · simp [claimRow,same]
    · right
      rw [claimOneRows] at hx
      rw [claimOneNow] at shape
      have taskShape : ∃ y ∈ s.rows, claimRow now s.now x = claimRow now s.now y := by
        obtain ⟨y,hy,⟨_,rfl⟩ | ⟨_,rfl⟩⟩ := Table.memUpdate hx
        · exact ⟨y,hy,rfl⟩
        · exact ⟨_,hy,rfl⟩
      obtain ⟨y,hy,same⟩ := taskShape
      refine ⟨⟨y,hy,by rw [← same]; exact shape⟩,List.mem_cons_of_mem _ chosen,?_⟩
      refine Nat.lt_of_le_of_lt ?_ later
      unfold claimOne
      split
      · exact Nat.le_refl _
      · simp only [Function.update_apply]
        split
        · rename_i eq; rw [eq]; omega
        · exact Nat.le_refl _

inductive RowChange (env : Env) (s : State) : Action → Task → Task → Prop where
  | same (a x) : RowChange env s a x x
  | cancelled {kind key x} (pending : x.status = .pending) :
      RowChange env s (.cancel kind key) x (cancelRow s.now x)
  | aborted {a x c} (call : c ∈ s.aborts) (inside : x.id ∈ c.ids) (isOpen : x.status.isOpen = true)
      (how : (a = .abortUpdate c.name ∧ c.stage = .reading ∧ c.inTx = false) ∨
        (a = .commit c.name ∧ c.stage = .opened)) :
      RowChange env s a x (abortRow s.now x)
  | claimed {r now short long skipped x} (chosen : x.id ∈ short ++ long)
      (isDue : due env r now false x = true ∨ due env r now true x = true) :
      RowChange env s (.runOnce r now short long skipped) x (claimRow now s.now x)
  | unhandled {x y} (run : y ∈ s.runs) (waiting : y.phase = .waiting ∨ y.phase = .dispatched)
      (row : x.id = y.task.id) (running : x.status = .running)
      (missing : spec env y.replica y.task.kind = none) :
      RowChange env s (.start y.task.id y.claim true) x ((noHandlerFields y.task.kind).write s.now x)
  | beaten {x y} (run : y ∈ s.runs) (beating : y.beating = true) (row : x.id = y.task.id)
      (running : x.status = .running) :
      RowChange env s (.beat y.task.id y.claim true) x (beatRow s.now x)
  | finished {x y err cause} (run : y ∈ s.runs) (back : y.phase = .returned err cause)
      (row : x.id = y.task.id) (running : x.status = .running)
      (written : outcomeAccepted s y (outcomeOf env s y err cause) true = true) :
      RowChange env s (.outcome y.task.id y.claim true) x ((outcomeOf env s y err cause).write s.now x)

theorem changeId {env s a x x'} (h : RowChange env s a x x') :
    x'.id = x.id ∧ x'.kind = x.kind ∧ x'.key = x.key := by
  cases h <;> exact ⟨rfl,rfl,rfl⟩

theorem acceptedReachable {reachable : Bool} {limit now : Int} {text : Bytes}
    (ok : accepted reachable limit now text = true) : reachable = true := by
  simp only [accepted,Bool.and_eq_true] at ok
  exact ok.1.1

theorem chosenRow {env s r now short long skipped} (round : Round env s r now short long skipped)
    {id : Nat} (chosen : id ∈ short ++ long) :
    ∃ x ∈ s.rows, x.id = id ∧ (due env r now false x = true ∨ due env r now true x = true) := by
  obtain ⟨_,_,_,_,_,shorts,longs⟩ := round
  rcases List.mem_append.mp chosen with inShort | inLong
  · obtain ⟨_,x,hx,same,isDue⟩ := shorts.2.2.1 _ inShort
    exact ⟨x,hx,same,.inl isDue⟩
  · unfold SelectsLong at longs
    split at longs
    · obtain ⟨_,x,hx,same,isDue⟩ := longs.2.2.1 _ inLong
      exact ⟨x,hx,same,.inr isDue⟩
    · rw [longs] at inLong
      contradiction

theorem chosenDue {env s r now short long skipped} (round : Round env s r now short long skipped)
    (keyed : Table.Keyed Task.id s.rows) {x} (mem : x ∈ s.rows) (chosen : x.id ∈ short ++ long) :
    due env r now false x = true ∨ due env r now true x = true := by
  obtain ⟨y,hy,same,isDue⟩ := chosenRow round chosen
  obtain rfl := Table.sameRow keyed hy mem same
  exact isDue

theorem dueCases {env r now long t} (isDue : due env r now long t = true) :
    (t.status = .pending ∧ t.runAt ≤ now) ∨
    (t.status = .running ∧ ∃ l, t.lockedAt = some l ∧ l < now - (env.cfg r).stale) := by
  obtain ⟨_,ready⟩ := Bool.and_eq_true_iff.mp isDue
  rcases Bool.or_eq_true_iff.mp ready with pending | running
  · obtain ⟨status,past⟩ := Bool.and_eq_true_iff.mp pending
    exact .inl ⟨beq_iff_eq.mp status,of_decide_eq_true past⟩
  · obtain ⟨status,silent⟩ := Bool.and_eq_true_iff.mp running
    split at silent
    · rename_i l locked
      exact .inr ⟨beq_iff_eq.mp status,l,locked,of_decide_eq_true silent⟩
    · contradiction

theorem roundDue {env s r now short long skipped} (round : Round env s r now short long skipped)
    (keyed : Table.Keyed Task.id s.rows) {x} (mem : x ∈ s.rows) (chosen : x.id ∈ short ++ long) :
    (x.status = .pending ∧ x.runAt ≤ now) ∨
    (x.status = .running ∧ ∃ l, x.lockedAt = some l ∧ l < now - (env.cfg r).stale) := by
  rcases chosenDue round keyed mem chosen with short | long
  · exact dueCases short
  · exact dueCases long

theorem updatedRow {env s a} {p : Task → Bool} {f : Task → Task} {x' : Task}
    (mem : x' ∈ Table.update p f s.rows)
    (change : ∀ x ∈ s.rows, p x = true → RowChange env s a x (f x)) :
    ∃ x ∈ s.rows, RowChange env s a x x' := by
  obtain ⟨x,hx,⟨hit,rfl⟩ | ⟨_,rfl⟩⟩ := Table.memUpdate mem
  · exact ⟨x,hx,change x hx hit⟩
  · exact ⟨_,hx,.same _ _⟩

def Scheduled (s : State) (a : Action) (x' : Task) : Prop := ∃ kind key runAt,
  a = .schedule kind key runAt ∧
    x' = ⟨s.nextId,kind,key,runAt,.pending,0,ByteArray.empty,none,s.now⟩

theorem rowsChange {env s a t} (does : Does env s a t) (keyed : Table.Keyed Task.id s.rows) :
    ∀ x' ∈ t.rows, (∃ x ∈ s.rows, RowChange env s a x x') ∨ Scheduled s a x' := by
  intro x' mem
  cases does with
  | schedule named =>
    rcases List.mem_append.mp mem with old | new
    · exact .inl ⟨x',old,.same _ _⟩
    · exact .inr ⟨_,_,_,rfl,List.mem_singleton.mp new⟩
  | cancel kind key =>
    refine .inl (updatedRow mem (fun x _ hit => .cancelled ?_))
    exact beq_iff_eq.mp (Bool.and_eq_true_iff.mp hit).2
  | abortWrites call reading plain =>
    refine .inl (updatedRow mem (fun x _ hit => ?_))
    obtain ⟨inside,isOpen⟩ := Bool.and_eq_true_iff.mp hit
    exact .aborted call (List.contains_iff_mem.mp inside) isOpen (.inl ⟨rfl,reading,plain⟩)
  | commit call opened returned =>
    refine .inl (updatedRow mem (fun x _ hit => ?_))
    obtain ⟨inside,isOpen⟩ := Bool.and_eq_true_iff.mp hit
    exact .aborted call (List.contains_iff_mem.mp inside) isOpen (.inr ⟨rfl,opened⟩)
  | runOnce round =>
    rw [claimedRows] at mem
    refine .inl (updatedRow mem (fun x hx hit => ?_))
    have chosen := List.contains_iff_mem.mp hit
    exact .claimed chosen (chosenDue round keyed hx chosen)
  | unhandled run waiting missing =>
    simp only at mem
    split at mem
    · rename_i written
      obtain rfl := acceptedReachable written
      refine .inl (updatedRow mem (fun x _ hit => ?_))
      obtain ⟨row,running⟩ := Bool.and_eq_true_iff.mp hit
      exact .unhandled run waiting (beq_iff_eq.mp row) (beq_iff_eq.mp running) missing
    · exact .inl ⟨x',mem,.same _ _⟩
  | beaten run beating found =>
    refine .inl (updatedRow mem (fun x _ hit => ?_))
    obtain ⟨row,running⟩ := Bool.and_eq_true_iff.mp hit
    exact .beaten run beating (beq_iff_eq.mp row) (beq_iff_eq.mp running)
  | outcome run back =>
    simp only at mem
    split at mem
    · rename_i written
      obtain rfl := acceptedReachable written
      refine .inl (updatedRow mem (fun x _ hit => ?_))
      obtain ⟨row,running⟩ := Bool.and_eq_true_iff.mp hit
      exact .finished run back (beq_iff_eq.mp row) (beq_iff_eq.mp running) written
    · exact .inl ⟨x',mem,.same _ _⟩
  | cleanup => exact .inl ⟨x',(Table.memDelete.mp mem).1,.same _ _⟩
  | _ => exact .inl ⟨x',mem,.same _ _⟩

theorem rowsKept {env s a t} (does : Does env s a t) {x} (mem : x ∈ s.rows) :
    (∃ x' ∈ t.rows, x'.id = x.id) ∨
      ∃ r ids, a = .cleanup r ids ∧ x.id ∈ ids ∧ expired env r s.now x = true := by
  have updated {p : Task → Bool} {f : Task → Task} (stable : ∀ y, (f y).id = y.id) :
      ∃ x' ∈ Table.update p f s.rows, x'.id = x.id := by
    cases hp : p x with
    | true => exact ⟨f x,Table.updateHit mem hp,stable x⟩
    | false => exact ⟨x,Table.updateMiss mem hp,rfl⟩
  cases does with
  | schedule named => exact .inl ⟨x,List.mem_append_left _ mem,rfl⟩
  | cancel | abortWrites | commit | beaten => exact .inl (updated (fun _ => rfl))
  | runOnce round => rw [claimedRows]; exact .inl (updated (fun _ => rfl))
  | unhandled | outcome =>
    dsimp only
    split
    · exact .inl (updated (fun _ => rfl))
    · exact .inl ⟨x,mem,rfl⟩
  | cleanup alive running limit old all =>
    rename_i r ids
    cases hit : ids.contains x.id && expired env r s.now x with
    | true =>
      obtain ⟨inside,past⟩ := Bool.and_eq_true_iff.mp hit
      exact .inr ⟨r,ids,rfl,List.contains_iff_mem.mp inside,past⟩
    | false => exact .inl ⟨x,Table.memDelete.mpr ⟨mem,hit⟩,rfl⟩
  | _ => exact .inl ⟨x,mem,rfl⟩

def actor : Action → Option (Nat × Nat)
  | .dispatch id claim | .start id claim _ | .beat id claim _ | .beatExit id claim
  | .deadline id claim | .handlerReturn id claim _ | .outcome id claim _ => some (id,claim)
  | _ => none

def cancels : Action → Option Cause
  | .cancelLocal _ => some .aborted
  | .stopRuns _ => some .shutdown
  | .stopPoller _ => some .canceled
  | _ => none

inductive RunChange (env : Env) (s : State) : Action → Run → Run → Prop where
  | same {a x} (other : actor a ≠ some x.name) : RunChange env s a x x
  | untracked {a x} (other : actor a ≠ some x.name) : RunChange env s a x {x with tracked := false}
  | canceled {a x} (cause : Cause) (how : cancels a = some cause) :
      RunChange env s a x (x.cancelWith cause)
  | missed (x) : RunChange env s (.beat x.task.id x.claim false) x x
  | expired (x) : RunChange env s (.deadline x.task.id x.claim) x (x.cancelWith .deadline)
  | dispatched {x} (waiting : x.phase = .waiting) :
      RunChange env s (.dispatch x.task.id x.claim) x {x with phase := .dispatched}
  | begun {x sp reachable} (waiting : x.phase = .waiting ∨ x.phase = .dispatched)
      (handler : spec env x.replica x.task.kind = some sp) :
      RunChange env s (.start x.task.id x.claim reachable) x {x with
        phase := .handling, startedAt := s.now, beatAt := s.now, beating := true, tracked := true,
        cause := if x.replica ∈ s.ctxDone then some .canceled else none}
  | unhandled {x reachable} (waiting : x.phase = .waiting ∨ x.phase = .dispatched)
      (missing : spec env x.replica x.task.kind = none) :
      RunChange env s (.start x.task.id x.claim reachable) x {x with phase := .ended}
  | beaten {x} (beating : x.beating = true) (row : ∃ t ∈ s.rows, t.id = x.task.id ∧ t.status = .running) :
      RunChange env s (.beat x.task.id x.claim true) x {x with beatAt := s.now, beaten := true}
  | lost {x} (beating : x.beating = true) (row : ∀ t ∈ s.rows, t.id = x.task.id → t.status ≠ .running) :
      RunChange env s (.beat x.task.id x.claim true) x {x.cancelWith .aborted with beating := false}
  | quiet {x} (isOver : x.cause ≠ none ∨ x.phase ≠ .handling) :
      RunChange env s (.beatExit x.task.id x.claim) x {x with beating := false}
  | returned {x} (h : Handled) (handling : x.phase = .handling) :
      RunChange env s (.handlerReturn x.task.id x.claim h) x
        {x.cancelWith .canceled with phase := .returned (safely h) x.cause, tracked := false}
  | finished {x err cause reachable} (back : x.phase = .returned err cause) :
      RunChange env s (.outcome x.task.id x.claim reachable) x {x with phase := .ended}

theorem changeSame {env s a x x'} (h : RunChange env s a x x') :
    x'.replica = x.replica ∧ x'.task = x.task ∧ x'.claim = x.claim := by
  cases h <;> exact ⟨rfl,rfl,rfl⟩

theorem notActor {a} {x y : Run} (acts : actor a = some x.name)
    (miss : Run.isAt x.task.id x.claim y = false) : actor a ≠ some y.name := by
  intro same
  have hit := isAtName.mpr (Option.some.inj (same.symm.trans acts) : y.name = (x.task.id,x.claim))
  rw [hit] at miss
  contradiction

theorem outcomeEnds {env s a x x' reachable} (change : RunChange env s a x x')
    (how : a = .outcome x.task.id x.claim reachable) : x'.phase = .ended := by
  cases change with
  | same other | untracked other => exact absurd (congrArg actor how) other
  | canceled _ by' => rw [how] at by'; cases by'
  | finished => rfl
  | _ => cases how

theorem startEnds {env s a x x' reachable} (change : RunChange env s a x x')
    (how : a = .start x.task.id x.claim reachable)
    (missing : spec env x.replica x.task.kind = none) : x'.phase = .ended := by
  cases change with
  | same other | untracked other => exact absurd (congrArg actor how) other
  | canceled _ by' => rw [how] at by'; cases by'
  | begun _ handler => rw [missing] at handler; contradiction
  | unhandled => rfl
  | _ => cases how

theorem updatedRun {env s a} {f : Run → Run} {x x' : Run} (names : Table.Keyed Run.name s.runs)
    (run : x ∈ s.runs) (acts : actor a = some x.name)
    (mem : x' ∈ updateRun x.task.id x.claim f s.runs)
    (change : RunChange env s a x (f x)) : ∃ x ∈ s.runs, RunChange env s a x x' := by
  obtain ⟨y,hy,⟨hit,rfl⟩ | ⟨miss,rfl⟩⟩ := Table.memUpdate mem
  · obtain rfl := Table.sameRow names hy run (isAtName.mp hit)
    exact ⟨y,hy,change⟩
  · exact ⟨_,hy,.same (notActor acts miss)⟩

theorem updatedAfterUntrack {env s a} {f : Run → Run} {x x' : Run} {p : Run → Bool}
    (names : Table.Keyed Run.name s.runs) (run : x ∈ s.runs) (acts : actor a = some x.name)
    (own : p x = true) (mem : x' ∈ updateRun x.task.id x.claim f
      (Table.update p (fun y => {y with tracked := false}) s.runs))
    (change : RunChange env s a x (f {x with tracked := false})) : ∃ x ∈ s.runs, RunChange env s a x x' := by
  obtain ⟨z,hz,⟨hit,rfl⟩ | ⟨missed,rfl⟩⟩ := Table.memUpdate mem
  · have name := isAtName.mp hit
    obtain ⟨y,hy,⟨_,rfl⟩ | ⟨miss,rfl⟩⟩ := Table.memUpdate hz
    · obtain rfl := Table.sameRow names hy run name
      exact ⟨y,hy,change⟩
    · obtain rfl := Table.sameRow names hy run name
      rw [own] at miss
      contradiction
  · obtain ⟨y,hy,⟨_,rfl⟩ | ⟨_,rfl⟩⟩ := Table.memUpdate hz
    · exact ⟨y,hy,.untracked (notActor acts missed)⟩
    · exact ⟨_,hy,.same (notActor acts missed)⟩

theorem updatedCause {env s a} {p : Run → Bool} {cause : Cause} {x' : Run} (nobody : actor a = none)
    (how : cancels a = some cause) (mem : x' ∈ Table.update p (Run.cancelWith cause) s.runs) :
    ∃ x ∈ s.runs, RunChange env s a x x' := by
  obtain ⟨x,hx,⟨_,rfl⟩ | ⟨_,rfl⟩⟩ := Table.memUpdate mem
  · exact ⟨x,hx,.canceled _ how⟩
  · exact ⟨_,hx,.same (by simp [nobody])⟩

def ClaimedRun (s : State) (a : Action) (x' : Run) : Prop := ∃ r now short long skipped,
  a = .runOnce r now short long skipped ∧ NewRun s r now (short ++ long) x'

theorem runsChange {env s a t} (does : Does env s a t) (names : Table.Keyed Run.name s.runs) :
    ∀ x' ∈ t.runs, (∃ x ∈ s.runs, RunChange env s a x x') ∨ ClaimedRun s a x' := by
  intro x' mem
  cases does with
  | runOnce round =>
    rename_i r now short long skipped
    rcases claimedRuns r now (short ++ long) s x' mem with old | new
    · exact .inl ⟨x',old,.same (by simp [actor])⟩
    · exact .inr ⟨r,now,short,long,skipped,rfl,new⟩
  | cancelLocal | stopRuns | stopPoller => exact .inl (updatedCause rfl rfl mem)
  | dispatch run waiting long next => exact .inl (updatedRun names run rfl mem (.dispatched waiting))
  | begin run waiting handler =>
    exact .inl (updatedAfterUntrack names run rfl (by simp) mem (.begun waiting handler))
  | unhandled run waiting missing =>
    exact .inl (updatedRun names run rfl mem (.unhandled waiting missing))
  | beaten run beating row => exact .inl (updatedRun names run rfl mem (.beaten beating row))
  | lost run beating row => exact .inl (updatedRun names run rfl mem (.lost beating row))
  | beatFails run beating =>
    rename_i x
    cases hit : x'.isAt x.task.id x.claim with
    | true =>
      obtain rfl := Table.sameRow names mem run (isAtName.mp hit)
      exact .inl ⟨x',mem,.missed _⟩
    | false => exact .inl ⟨x',mem,.same (notActor rfl hit)⟩
  | beatExit run beating isOver => exact .inl (updatedRun names run rfl mem (.quiet isOver))
  | deadline run handling isOver => exact .inl (updatedRun names run rfl mem (.expired _))
  | handlerReturn h run handling =>
    exact .inl (updatedAfterUntrack names run rfl (by simp) mem (.returned h handling))
  | outcome run back => exact .inl (updatedRun names run rfl mem (.finished back))
  | crash r => exact .inl ⟨x',(List.mem_filter.mp mem).1,.same (by simp [actor])⟩
  | _ => exact .inl ⟨x',mem,.same (by simp [actor])⟩

structure Wf (s : State) : Prop where
  ids : Table.Keyed Task.id s.rows
  fresh : ∀ x ∈ s.rows, x.id < s.nextId
  names : Table.Keyed Run.name s.runs
  counted : ∀ x ∈ s.runs, x.claim ≤ s.claims x.task.id
  known : ∀ x ∈ s.runs, x.task.id < s.nextId
  calls : Table.Keyed AbortCall.name s.aborts

theorem initWf : Wf State.init :=
  ⟨by simp [Table.Keyed,State.init],by simp [State.init],by simp [Table.Keyed,State.init],
    by simp [State.init],by simp [State.init],by simp [Table.Keyed,State.init]⟩

theorem claimOneNames (r : Nat) (now : Int) (id : Nat) {s : State} (names : Table.Keyed Run.name s.runs)
    (counted : ∀ x ∈ s.runs, x.claim ≤ s.claims x.task.id) :
    Table.Keyed Run.name (claimOne r now s id).runs ∧
    ∀ x ∈ (claimOne r now s id).runs, x.claim ≤ (claimOne r now s id).claims x.task.id := by
  unfold claimOne
  split
  · exact ⟨names,counted⟩
  · rename_i t found
    have same : t.id = id := by simpa using List.find?_some found
    refine ⟨Table.insertKeyed names ?_,?_⟩
    · intro y hy eq
      obtain ⟨sameId,sameClaim⟩ := Prod.mk.inj eq
      have old := counted y hy
      simp only [claimRow] at sameId sameClaim
      rw [sameId,same] at old
      omega
    · intro x hx
      simp only [Function.update_apply]
      rcases List.mem_append.mp hx with old | new
      · have bound := counted x old
        split
        · rename_i eq; rw [eq] at bound; omega
        · exact bound
      · obtain rfl := List.mem_singleton.mp new
        simp [claimRow,same]

theorem claimedNames (r : Nat) (now : Int) (ids : List Nat) {s : State}
    (names : Table.Keyed Run.name s.runs) (counted : ∀ x ∈ s.runs, x.claim ≤ s.claims x.task.id) :
    Table.Keyed Run.name (ids.foldl (claimOne r now) s).runs ∧
    ∀ x ∈ (ids.foldl (claimOne r now) s).runs,
      x.claim ≤ (ids.foldl (claimOne r now) s).claims x.task.id := by
  induction ids generalizing s with
  | nil => exact ⟨names,counted⟩
  | cons id rest ih =>
    obtain ⟨names',counted'⟩ := claimOneNames r now id names counted
    exact ih names' counted'

theorem nowStep {env s a t} (does : Does env s a t) :
    t.now = s.now ∨ ∃ d : Nat, a = .tick d ∧ t.now = s.now + d := by
  cases does with
  | tick d => exact .inr ⟨d,rfl,rfl⟩
  | runOnce round => exact .inl (claimedRest _ _ _ s).1
  | _ => exact .inl rfl

theorem countersStep {env s a t} (does : Does env s a t) :
    s.nextId ≤ t.nextId ∧ (t.claims = s.claims ∨ ∃ r now short long skipped,
      a = .runOnce r now short long skipped) := by
  cases does with
  | runOnce round =>
    rename_i r now short long skipped
    exact ⟨(claimedRest r now (short ++ long) s).2.1 ▸ Nat.le_refl _,.inr ⟨_,_,_,_,_,rfl⟩⟩
  | schedule named => exact ⟨Nat.le_succ _,.inl rfl⟩
  | _ => exact ⟨Nat.le_refl _,.inl rfl⟩

theorem idsStep {env s a t} (does : Does env s a t) (wf : Wf s) : Table.Keyed Task.id t.rows := by
  cases does with
  | schedule named => exact Table.insertKeyed wf.ids (fun y hy => Nat.ne_of_lt (wf.fresh y hy))
  | runOnce round => rw [claimedRows]; exact Table.updateKeyed (fun _ => rfl) wf.ids
  | cancel | abortWrites | commit | beaten => exact Table.updateKeyed (fun _ => rfl) wf.ids
  | unhandled | outcome =>
    dsimp only
    split
    · exact Table.updateKeyed (fun _ => rfl) wf.ids
    · exact wf.ids
  | cleanup => exact Table.deleteKeyed wf.ids
  | _ => exact wf.ids

theorem namesStep {env s a t} (does : Does env s a t) (wf : Wf s) : Table.Keyed Run.name t.runs := by
  cases does with
  | runOnce round => exact (claimedNames _ _ _ wf.names wf.counted).1
  | begin | handlerReturn =>
    exact Table.updateKeyed (fun _ => rfl) (Table.updateKeyed (fun _ => rfl) wf.names)
  | cancelLocal | dispatch | unhandled | beaten | lost | beatExit | deadline | outcome | stopRuns
  | stopPoller => exact Table.updateKeyed (fun _ => rfl) wf.names
  | crash r => exact List.Nodup.sublist (List.Sublist.map _ List.filter_sublist) wf.names
  | _ => exact wf.names

theorem setCallKeyed {d : AbortCall} {calls : List AbortCall} (keyed : Table.Keyed AbortCall.name calls) :
    Table.Keyed AbortCall.name (setCall d calls) := by
  have keys : (setCall d calls).map AbortCall.name = calls.map AbortCall.name := by
    rw [setCall,Table.update,List.map_map]
    refine List.map_congr_left (fun x _ => ?_)
    simp only [Function.comp_apply]
    split
    · rename_i hit; exact (beq_iff_eq.mp hit).symm
    · rfl
  rw [Table.Keyed,keys]
  exact keyed

theorem callsStep {env s a t} (does : Does env s a t) (wf : Wf s) :
    Table.Keyed AbortCall.name t.aborts := by
  cases does with
  | abortRead alive new => exact Table.insertKeyed wf.calls new
  | runOnce round => rw [(claimedRest _ _ _ s).2.2.2.2.1]; exact wf.calls
  | abortOpens | abortWrites | cancelLocal | commit | rollback => exact setCallKeyed wf.calls
  | crash r => exact List.Nodup.sublist (List.Sublist.map _ List.filter_sublist) wf.calls
  | _ => exact wf.calls

theorem wfStep {env s a t} (wf : Wf s) (ok : step env s a = some t) : Wf t := by
  have does := stepDoes ok
  obtain ⟨ids,claims⟩ := countersStep does
  refine ⟨idsStep does wf,?_,namesStep does wf,?_,?_,callsStep does wf⟩
  · intro x' hx'
    rcases rowsChange does wf.ids x' hx' with ⟨x,hx,change⟩ | ⟨kind,key,runAt,rfl,rfl⟩
    · rw [(changeId change).1]
      exact Nat.lt_of_lt_of_le (wf.fresh x hx) ids
    · cases does
      exact Nat.lt_succ_self _
  · rcases claims with same | ⟨r,now,short,long,skipped,rfl⟩
    · intro x' hx'
      rcases runsChange does wf.names x' hx' with ⟨x,hx,change⟩ | ⟨r,now,short,long,skipped,rfl,new⟩
      · obtain ⟨_,task,claim⟩ := changeSame change
        rw [claim,task,same]
        exact wf.counted x hx
      · cases does
        exact (claimedNames _ _ _ wf.names wf.counted).2 x' hx'
    · cases does
      exact (claimedNames _ _ _ wf.names wf.counted).2
  · intro x' hx'
    rcases runsChange does wf.names x' hx' with ⟨x,hx,change⟩ | ⟨r,now,short,long,skipped,rfl,new⟩
    · rw [(changeSame change).2.1]
      exact Nat.lt_of_lt_of_le (wf.known x hx) ids
    · obtain ⟨x,hx,shape⟩ := new.shape
      have same : x'.task.id = x.id := by rw [shape]; rfl
      rw [same]
      exact Nat.lt_of_lt_of_le (wf.fresh x hx) ids

theorem finalSame {env s a x x'} (change : RowChange env s a x x')
    (final : x.status.isOpen = false) : x' = x := by
  cases change with
  | same => rfl
  | cancelled pending => rw [pending] at final; contradiction
  | aborted _ _ isOpen => rw [isOpen] at final; contradiction
  | claimed _ isDue =>
    rcases isDue with h | h <;> rcases dueCases h with ⟨status,_⟩ | ⟨status,_⟩ <;>
      rw [status] at final <;> contradiction
  | unhandled _ _ _ running | beaten _ _ _ running | finished _ _ _ running =>
    rw [running] at final
    contradiction

theorem finalKept {env s a t} (wf : Wf s) (ok : step env s a = some t) {x'} (mem : x' ∈ t.rows)
    (known : x'.id < s.nextId) (final : ∀ x ∈ s.rows, x.id = x'.id → x.status.isOpen = false) :
    x' ∈ s.rows := by
  rcases rowsChange (stepDoes ok) wf.ids x' mem with ⟨x,hx,change⟩ | ⟨_,_,_,_,rfl⟩
  · have same := finalSame change (final x hx (changeId change).1.symm)
    rw [same]
    exact hx
  · exact absurd known (Nat.lt_irrefl _)

end DevkitCommon.Delayx
