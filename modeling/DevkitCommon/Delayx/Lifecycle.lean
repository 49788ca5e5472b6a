import DevkitCommon.Delayx.Fencing

/-! The life of one row under all the operations that write it: which statuses it can
leave, what attempts counts, when it is deleted, that an open row stays within reach of
the claiming query, and whose kinds a scheduler touches. -/
namespace DevkitCommon.Delayx
open Machine

def registered (env : Env) (r : Nat) (kind : String) : Bool := (spec env r kind).isSome

def OwnKinds (env : Env) (s : State) : Action → Prop
  | .runOnce r _ short long _ => ∀ x ∈ s.rows, x.id ∈ short ++ long → registered env r x.kind = true
  | .cleanup r ids => ∀ x ∈ s.rows, x.id ∈ ids → registered env r x.kind = true
  | .outcome id claim _ => ∀ y ∈ s.runs, y.name = (id,claim) → ∀ x ∈ s.rows, x.id = id →
    registered env y.replica x.kind = true
  | _ => True
instance (env s a) : Decidable (OwnKinds env s a) := by unfold OwnKinds; induction a using Action.casesOn <;> infer_instance

/- No row has a kind that MySQL takes for one of the process's without being it. -/
def KindsApart (env : Env) (s : State) : Action → Prop
  | .runOnce r _ _ _ _ | .cleanup r _ => ∀ x ∈ s.rows, ∀ sp ∈ env.specs r,
    env.fold sp.kind = env.fold x.kind → sp.kind = x.kind
  | _ => True
instance (env s a) : Decidable (KindsApart env s a) := by unfold KindsApart; induction a using Action.casesOn <;> infer_instance

def Interrupted (s : State) (y : Run) : Prop := ∃ text cause, y.phase = .returned (some text) cause ∧
  cause ≠ some .aborted ∧ (cause = some .shutdown ∨ y.replica ∈ s.ctxDone)

def Ripe (env : Env) (s : State) (r : Nat) (x : Task) : Prop :=
  (x.status = .pending ∧ x.runAt ≤ s.now) ∨
  (x.status = .running ∧ ∀ l ∈ x.lockedAt, l < s.now - (env.cfg r).stale)

def CanRound (env : Env) (s : State) (r : Nat) (sp : Spec) : Prop :=
  r ∉ s.dead ∧ r ∉ s.ctxDone ∧ ¬ s.runs.any (fun x => x.replica == r && x.phase == .waiting) ∧
  ¬ pollerBusy env s r ∧ (sp.long = true → 0 < freeWorkers env s r)

def Claimable (env : Env) (s : State) (x : Task) : Prop :=
  ∀ r, ∀ sp ∈ env.specs r, sp.kind = x.kind → CanRound env s r sp → s.locked x.id = false →
    Ripe env s r x → ∃ short long skipped, x.id ∈ short ++ long ∧
      (step env s (.runOnce r s.now short long skipped)).isSome = true

structure Lawful (env : Env) (max : Int) (s : State) (a : Action) : Prop where
  absorbing : ∀ x ∈ s.rows, x.status.isOpen = false →
    x.id ∈ (rowsAfter env s a).map Task.id → x ∈ rowsAfter env s a
  deleted : ∀ x ∈ s.rows, x.id ∉ (rowsAfter env s a).map Task.id →
    (∃ r ids, a = .cleanup r ids) ∧ (x.status = .done ∨ x.status = .cancelled)
  bounded : ∀ x ∈ s.rows, x.attempts ≤ max
  failed : ∀ x ∈ s.rows, x.status = .failed → x.attempts = max
  requeued : ∀ id claim reachable, a = .outcome id claim reachable →
    ∀ y ∈ s.runs, y.name = (id,claim) → Interrupted s y →
    ∀ x ∈ s.rows, ∀ x' ∈ rowsAfter env s a, x.id = id → x'.id = id → x'.attempts = x.attempts
  sinceClaim : ∀ y ∈ s.runs, y.claim = s.claims y.task.id → ∀ x ∈ s.rows, x.id = y.task.id →
    x.status = .running → x.attempts = y.task.attempts
  claimable : ∀ x ∈ s.rows, x.status.isOpen = true →
    (x.status = .running → x.lockedAt.isSome = true) ∧ Claimable env s x
  own : OwnKinds env s a

structure RowSound (max : Int) (x : Task) : Prop where
  bounded : x.attempts ≤ max
  left : x.status.isOpen = true → x.attempts < max
  failed : x.status = .failed → x.attempts = max
  locked : x.status = .running → x.lockedAt.isSome = true

theorem outcomeSound {cfg : Config} {max : Int} (one : cfg.maxAttempts = max) {t x : Task}
    (copy : t.attempts < max) (row : x.attempts < max) (now now' err cause ctxEnded) :
    RowSound max ((outcomeFields cfg t now err cause ctxEnded).write now' x) := by
  simp only [outcomeFields]
  split
  · exact ⟨by simp [Fields.write]; omega,by simp [Fields.write,Status.isOpen],by simp [Fields.write],
      by simp [Fields.write]⟩
  · split
    · exact ⟨by simp [Fields.write]; omega,by simp [Fields.write,Status.isOpen],by simp [Fields.write],
        by simp [Fields.write]⟩
    · split
      · exact ⟨by simp [Fields.write]; omega,by simp [Fields.write,row],by simp [Fields.write],
          by simp [Fields.write]⟩
      · split
        · exact ⟨by simp [Fields.write]; omega,by simp [Fields.write,Status.isOpen],
            by simp [Fields.write]; omega,by simp [Fields.write]⟩
        · exact ⟨by simp [Fields.write]; omega,by simp [Fields.write]; omega,by simp [Fields.write],
            by simp [Fields.write]⟩

structure Lived (env : Env) (max : Int) (s : State) : Prop where
  wf : Wf s
  rows : ∀ x ∈ s.rows, RowSound max x
  copies : ∀ y ∈ s.runs, y.task.attempts < max
  latest : ∀ y ∈ s.runs, y.claim = s.claims y.task.id → ∀ x ∈ s.rows, x.id = y.task.id →
    x.status = .running → x.attempts = y.task.attempts
  kinds : ∀ y ∈ s.runs, ∀ x ∈ s.rows, x.id = y.task.id → x.kind = y.task.kind
  handled : ∀ y ∈ s.runs, y.phase.active = true → registered env y.replica y.task.kind = true

theorem initLived (env : Env) (max : Int) : Lived env max State.init := by
  refine ⟨initWf,?_,?_,?_,?_,?_⟩ <;> simp [State.init]

section Run
variable {env : Env} {max : Int} {s t : State} {a : Action}

theorem dueOpen {x : Task} {r now} (isDue : due env r now false x = true ∨ due env r now true x = true) :
    x.status.isOpen = true := by
  rcases isDue with h | h <;> rcases dueCases h with ⟨status,_⟩ | ⟨status,_⟩ <;> rw [status] <;> rfl

theorem soundStep (one : ∀ r, (env.cfg r).maxAttempts = max) (lived : Lived env max s)
    (ok : step env s a = some t) : ∀ x ∈ t.rows, RowSound max x := by
  intro x' hx'
  have positive : 0 < max := one 0 ▸ maxAttemptsPositive _
  rcases rowsChange (stepDoes ok) lived.wf.ids x' hx' with ⟨x,hx,change⟩ | ⟨_,_,_,_,rfl⟩
  · have old := lived.rows x hx
    cases change with
    | same => exact old
    | cancelled | aborted => exact ⟨old.bounded,by simp [cancelRow,abortRow,Status.isOpen],
        by simp [cancelRow,abortRow],by simp [cancelRow,abortRow]⟩
    | claimed _ isDue =>
      have left := old.left (dueOpen isDue)
      exact ⟨old.bounded,fun _ => left,by simp [claimRow],fun _ => rfl⟩
    | unhandled _ _ _ running =>
      have left := old.left (by rw [running]; rfl)
      exact ⟨old.bounded,fun _ => left,by simp [noHandlerFields],by simp [noHandlerFields]⟩
    | beaten _ _ _ running =>
      have left := old.left (by rw [running]; rfl)
      exact ⟨old.bounded,fun _ => left,by simp [beatRow,running],fun _ => rfl⟩
    | finished run _ _ running =>
      have left := old.left (by rw [running]; rfl)
      exact outcomeSound (one _) (lived.copies _ run) left _ _ _ _ _
  · exact ⟨Int.le_of_lt positive,fun _ => positive,by simp,by simp⟩

theorem copiesStep (lived : Lived env max s) (ok : step env s a = some t) :
    ∀ y ∈ t.runs, y.task.attempts < max := by
  intro y' hy'
  have does := stepDoes ok
  rcases runsChange does lived.wf.names y' hy' with ⟨y,hy,change⟩ | ⟨r,now,short,long,_,rfl,new⟩
  · rw [(changeSame change).2.1]
    exact lived.copies y hy
  · cases does with
    | runOnce round =>
      obtain ⟨x,hx,shape⟩ := new.shape
      have same : y'.task = claimRow now s.now x := by rw [shape]
      have chosen := new.chosen
      rw [same] at chosen ⊢
      exact (lived.rows x hx).left (dueOpen (chosenDue round lived.wf.ids hx chosen))

theorem newRunRow (wf : Wf s) {r now ids y x} (new : NewRun s r now ids y) (hx : x ∈ s.rows)
    (row : x.id = y.task.id) : y.task = claimRow now s.now x := by
  obtain ⟨z,hz,shape⟩ := new.shape
  have same : y.task = claimRow now s.now z := by rw [shape]
  rw [same] at row ⊢
  rw [Table.sameRow wf.ids hx hz row]

theorem latestStep (lived : Lived env max s) (ok : step env s a = some t) :
    ∀ y ∈ t.runs, y.claim = t.claims y.task.id → ∀ x ∈ t.rows, x.id = y.task.id →
      x.status = .running → x.attempts = y.task.attempts := by
  intro y' hy' current x' hx' row running
  have does := stepDoes ok
  rcases rowsChange does lived.wf.ids x' hx' with ⟨x,hx,next⟩ | ⟨_,_,_,_,rfl⟩
  · have id := (changeId next).1
    rcases runsChange does lived.wf.names y' hy' with ⟨y,hy,change⟩ | ⟨r,now,short,long,_,rfl,new⟩
    · obtain ⟨_,task,claim⟩ := changeSame change
      rw [claim,task] at current
      rw [task] at row ⊢
      have sameRow : x.id = y.task.id := id ▸ row
      have old (status : x.status = .running) (kept : t.claims = s.claims) :
          x.attempts = y.task.attempts :=
        lived.latest y hy (by rw [current,kept]) x hx sameRow status
      cases next with
      | same =>
        rcases (countersStep does).2 with kept | ⟨r,now,short,long,skipped,rfl⟩
        · exact old running kept
        · cases does with
          | runOnce round =>
            have known := lived.wf.counted y hy
            have more := (claimedMore r now (short ++ long) s y.task.id).1
            exact lived.latest y hy (by omega) x' hx sameRow running
      | claimed chosen =>
        cases does with
        | runOnce round =>
          rename_i r now short long skipped _
          have known := lived.wf.counted y hy
          have more := (claimedMore r now (short ++ long) s y.task.id).2 (sameRow ▸ chosen)
            ⟨x,hx,sameRow⟩
          rw [current] at known
          exact absurd (Nat.lt_of_lt_of_le more known) (Nat.lt_irrefl _)
      | beaten _ _ _ status => exact old status ((countersStep does).2.resolve_right (by simp))
      | finished => exact absurd running (outcomeNotRunning _ _ _ _ _ _)
      | cancelled | aborted | unhandled => cases running
    · cases does with
      | runOnce round =>
        rw [newRunRow lived.wf new hx (id ▸ row)]
        cases next <;> rfl
  · cases running

theorem kindsStep (lived : Lived env max s) (ok : step env s a = some t) :
    ∀ y ∈ t.runs, ∀ x ∈ t.rows, x.id = y.task.id → x.kind = y.task.kind := by
  intro y' hy' x' hx' row
  have does := stepDoes ok
  rcases rowsChange does lived.wf.ids x' hx' with ⟨x,hx,next⟩ | ⟨_,_,_,rfl,rfl⟩
  · obtain ⟨id,kind,_⟩ := changeId next
    rw [id] at row
    rw [kind]
    rcases runsChange does lived.wf.names y' hy' with ⟨y,hy,change⟩ | ⟨r,now,short,long,_,rfl,new⟩
    · rw [(changeSame change).2.1] at row ⊢
      exact lived.kinds y hy x hx row
    · rw [newRunRow lived.wf new hx row]
      rfl
  · cases does with
    | schedule named =>
      have known := lived.wf.known y' hy'
      simp only at row
      omega

theorem handledStep (lived : Lived env max s) (ok : step env s a = some t) :
    ∀ y ∈ t.runs, y.phase.active = true → registered env y.replica y.task.kind = true := by
  intro y' hy' active
  rcases runsChange (stepDoes ok) lived.wf.names y' hy' with ⟨y,hy,change⟩ | ⟨_,_,_,_,_,rfl,new⟩
  · have old := lived.handled y hy
    cases change with
    | begun _ handler => simp [registered,handler]
    | returned _ handling => exact old (by rw [handling]; rfl)
    | dispatched | unhandled | finished => cases active
    | _ => exact old active
  · obtain ⟨x,_,shape⟩ := new.shape
    rw [shape] at active
    cases active

theorem livedStep (one : ∀ r, (env.cfg r).maxAttempts = max) (lived : Lived env max s)
    (ok : step env s a = some t) : Lived env max t where
  wf := wfStep lived.wf ok
  rows := soundStep one lived ok
  copies := copiesStep lived ok
  latest := latestStep lived ok
  kinds := kindsStep lived ok
  handled := handledStep lived ok

theorem finalStays (lived : Lived env max s) (ok : step env s a = some t) {x} (hx : x ∈ s.rows)
    (final : x.status.isOpen = false) (mem : x.id ∈ t.rows.map Task.id) : x ∈ t.rows := by
  obtain ⟨x',hx',same⟩ := List.mem_map.mp mem
  have old := finalKept lived.wf ok hx' (same ▸ lived.wf.fresh x hx) (fun y hy row => by
    rw [Table.sameRow lived.wf.ids hy hx (row.trans same)]
    exact final)
  rw [Table.sameRow lived.wf.ids hx old same.symm]
  exact hx'

theorem deletedFinal (ok : step env s a = some t) {x} (hx : x ∈ s.rows)
    (gone : x.id ∉ t.rows.map Task.id) :
    (∃ r ids, a = .cleanup r ids) ∧ (x.status = .done ∨ x.status = .cancelled) := by
  rcases rowsKept (stepDoes ok) hx with ⟨x',hx',same⟩ | ⟨r,ids,rfl,_,past⟩
  · exact absurd (List.mem_map.mpr ⟨x',hx',same⟩) gone
  · simp only [expired,Bool.and_eq_true,Bool.or_eq_true,beq_iff_eq] at past
    exact ⟨⟨r,ids,rfl⟩,past.1.2⟩

theorem interruptedFields {y : Run} (interrupted : Interrupted s y) {err cause}
    (back : y.phase = .returned err cause) : (outcomeOf env s y err cause).attempts = none := by
  obtain ⟨text,cause',phase,own,stopping⟩ := interrupted
  cases back.symm.trans phase
  have stops : cause = some .shutdown ∨ s.ctxDone.contains y.replica = true := by simpa using stopping
  simp only [outcomeOf,outcomeFields,if_neg own,if_pos stops]

theorem requeueKeeps (lived : Lived env max s) (ok : step env s a = some t) {id claim reachable}
    (how : a = .outcome id claim reachable) {y} (hy : y ∈ s.runs) (named : y.name = (id,claim))
    (interrupted : Interrupted s y) {x x'} (hx : x ∈ s.rows) (hx' : x' ∈ t.rows) (row : x.id = id)
    (row' : x'.id = id) : x'.attempts = x.attempts := by
  rcases rowsChange (stepDoes ok) lived.wf.ids x' hx' with ⟨z,hz,change⟩ | ⟨_,_,_,rfl,_⟩
  · obtain rfl := Table.sameRow lived.wf.ids hz hx ((changeId change).1.symm.trans (row'.trans row.symm))
    cases change with
    | finished run back =>
      obtain ⟨sameId,sameClaim,_⟩ := Action.outcome.inj how
      obtain rfl := Table.sameRow lived.wf.names run hy
        ((Prod.ext sameId sameClaim : Run.name _ = (id,claim)).trans named.symm)
      have none : (outcomeOf env s _ _ _).attempts = none := interruptedFields interrupted back
      simp [Fields.write,none]
    | _ => rfl
  · cases how

theorem selectsOne {rows : List Task} (keyed : Table.Keyed Task.id rows) {x} (mem : x ∈ rows)
    (wanted : Task → Bool) {limit : Int} (room : 1 ≤ limit) :
    Selects rows wanted limit ((rows.map Task.id).filter (fun i => i != x.id))
      (if wanted x = true then [x.id] else []) := by
  have alone : ∀ t ∈ rows, t.id ∉ (rows.map Task.id).filter (fun i => i != x.id) → t = x := by
    intro t ht free
    have same : t.id = x.id := by
      by_contra differs
      exact free (List.mem_filter.mpr ⟨List.mem_map.mpr ⟨t,ht,rfl⟩,by simpa using differs⟩)
    exact Table.sameRow keyed ht mem same
  split
  · rename_i want
    refine ⟨by simp,by simpa using room,?_,by simp [InOrder],?_⟩
    · intro i inside
      obtain rfl := List.mem_singleton.mp inside
      exact ⟨by simp,x,mem,rfl,want⟩
    · intro t ht _ out free
      rw [alone t ht free] at out
      exact absurd List.mem_cons_self out
  · rename_i unwanted
    refine ⟨by simp,by simp; omega,by simp,by simp [InOrder],?_⟩
    intro t ht want _ free
    rw [alone t ht free] at want
    exact absurd want unwanted

theorem ripeDue {x : Task} {r : Nat} {sp : Spec} (own : sp ∈ env.specs r) (kind : sp.kind = x.kind)
    (locked : x.status = .running → x.lockedAt.isSome = true) (ripe : Ripe env s r x) :
    due env r s.now sp.long x = true := by
  have mine : (env.specs r).any (fun q => q.long == sp.long && env.fold q.kind == env.fold x.kind) =
      true := List.any_eq_true.mpr ⟨sp,own,by simp [kind]⟩
  rcases ripe with ⟨pending,past⟩ | ⟨running,silent⟩
  · simp [due,mine,pending,past]
  · obtain ⟨l,at'⟩ := Option.isSome_iff_exists.mp (locked running)
    have old := silent l at'
    simp [due,mine,running,at',old]

theorem openClaimable (lived : Lived env max s) {x} (hx : x ∈ s.rows) : Claimable env s x := by
  rintro r sp own kind ⟨alive,on,idle,free,room⟩ unlocked ripe
  have wanted := ripeDue own kind (lived.rows x hx).locked ripe
  let skipped := (s.rows.map Task.id).filter (fun i => i != x.id)
  let short := if due env r s.now false x = true then [x.id] else []
  let long := if 0 < freeWorkers env s r then (if due env r s.now true x = true then [x.id] else []) else []
  have batch : 1 ≤ (env.cfg r).batch := orIntPositive (by decide)
  have round : Round env s r s.now short long skipped := by
    refine ⟨alive,on,Int.le_refl _,idle,free,selectsOne lived.wf.ids hx _ batch,?_⟩
    unfold SelectsLong
    by_cases workers : 0 < freeWorkers env s r
    · simp only [if_pos workers,long]
      exact selectsOne lived.wf.ids hx _ workers
    · simp only [if_neg workers,long]
  have chosen : x.id ∈ short ++ long := by
    cases pool : sp.long with
    | false =>
      rw [pool] at wanted
      exact List.mem_append_left _ (by simp [short,wanted])
    | true =>
      rw [pool] at wanted
      exact List.mem_append_right _ (by simp [long,wanted,room pool])
  have only : ∀ i ∈ short ++ long, i = x.id := by
    intro i mem
    rcases List.mem_append.mp mem with h | h
    · simp only [short] at h
      split at h <;> simp_all
    · simp only [long] at h
      split at h
      · split at h <;> simp_all
      · contradiction
  refine ⟨short,long,skipped,chosen,?_⟩
  have unblocked : ¬ (touches env s (.runOnce r s.now short long skipped)).any s.locked = true := by
    intro blocked
    obtain ⟨i,mem,locked⟩ := List.any_eq_true.mp blocked
    rw [only i mem,unlocked] at locked
    contradiction
  rw [step,if_neg unblocked]
  simp [perform,runOnce,round]

theorem foldedOwn {r : Nat} {kind : String} {p : Spec → Bool}
    (apart : ∀ sp ∈ env.specs r, env.fold sp.kind = env.fold kind → sp.kind = kind)
    (match' : (env.specs r).any (fun sp => p sp && env.fold sp.kind == env.fold kind) = true) :
    registered env r kind = true := by
  obtain ⟨sp,own,hit⟩ := List.any_eq_true.mp match'
  have same := apart sp own (beq_iff_eq.mp (Bool.and_eq_true_iff.mp hit).2)
  rw [registered,spec,List.find?_isSome]
  exact ⟨sp,own,by simp [same]⟩

theorem apartOwn (lived : Lived env max s) (apart : KindsApart env s a) (ok : step env s a = some t) :
    OwnKinds env s a := by
  cases stepDoes ok with
  | runOnce round =>
    intro x hx chosen
    rcases chosenDue round lived.wf.ids hx chosen with h | h <;>
      exact foldedOwn (apart x hx) (Bool.and_eq_true_iff.mp h).1
  | cleanup alive running limit old all =>
    intro x hx inside
    obtain ⟨y,hy,same,past⟩ := old x.id inside
    obtain rfl := Table.sameRow lived.wf.ids hy hx same
    have mine := (Bool.and_eq_true_iff.mp (Bool.and_eq_true_iff.mp past).1).1
    exact foldedOwn (p := fun _ => true) (apart y hx) (by simpa using mine)
  | outcome run back =>
    intro y hy named x hx row
    obtain rfl := Table.sameRow lived.wf.names hy run named
    rw [lived.kinds y hy x hx row]
    exact lived.handled y hy (by rw [back]; rfl)
  | _ => trivial

end Run

theorem taskLifecycle (env : Env) (max : Int) (as : List Action)
    (one : ∀ r, (env.cfg r).maxAttempts = max)
    (apart : Along (step env) (KindsApart env) State.init as) :
    Along (step env) (Lawful env max) State.init as := by
  refine alongKeeps (fun lived _ ok => livedStep one lived ok) ?_ (initLived env max) apart
  intro s a t lived apart ok
  have after := rowsAfterStep ok
  exact {
    absorbing := fun x hx final mem => by rw [after] at mem ⊢; exact finalStays lived ok hx final mem
    deleted := fun x hx gone => by rw [after] at gone; exact deletedFinal ok hx gone
    bounded := fun x hx => (lived.rows x hx).bounded
    failed := fun x hx => (lived.rows x hx).failed
    requeued := fun id claim reachable how y hy named interrupted x hx x' hx' row row' => by
      rw [after] at hx'
      exact requeueKeeps lived ok how hy named interrupted hx hx' row row'
    sinceClaim := lived.latest
    claimable := fun x hx _ => ⟨(lived.rows x hx).locked,openClaimable lived hx⟩
    own := apartOwn lived apart ok }

def twoLives : List Action :=
  [.schedule "report" "a" 0,.schedule "report" "b" 5000,.runOnce 0 0 [1] [] [],.start 1 1 true,
    .tick 5000,.handlerReturn 1 1 (.panic "nil map".toUTF8),.beatExit 1 1,.outcome 1 1 true,
    .runOnce 0 5000 [2] [] [],.start 2 1 true,.stopRuns 0,.stopPoller 0,
    .handlerReturn 2 1 (.err "stopped".toUTF8),.beatExit 2 1,.outcome 2 1 true,
    .runOnce 1 5000 [2] [] [],.start 2 2 true,.crash 1,.tick 91000,
    .runOnce 2 96000 [2,1] [] [],.start 2 3 true,.handlerReturn 2 3 .nil,.beatExit 2 3,
    .outcome 2 3 true,.start 1 2 true,.handlerReturn 1 2 .nil,.beatExit 1 2,.outcome 1 2 true,
    .tick 604800001,.cleanup 2 [1,2]]

theorem twoLivesLawful : (run (step (reports 0)) State.init twoLives).isSome ∧
    Along (step (reports 0)) (Lawful (reports 0) 5) State.init twoLives :=
  ⟨by decide,taskLifecycle (reports 0) 5 twoLives (fun _ => rfl) (by decide)⟩

/- Another service keeps its kind Report in the same table; to utf8mb4_0900_ai_ci that is
the kind report of this one. -/
def twoServices : Env :=
  {reports 0 with fold := fun kind => if kind = "Report" then "report" else kind}

theorem claimsForeignKind : ¬ ∀ env max as, (∀ r, (env.cfg r).maxAttempts = max) →
    Along (step env) (Lawful env max) State.init as := by
  intro lawful
  have run := lawful twoServices 5 [.schedule "Report" "a" 0,.runOnce 0 0 [1] [] []] (fun _ => rfl)
  have own := alongWeaken (fun here _ => here.own) run
  revert own
  decide

end DevkitCommon.Delayx
