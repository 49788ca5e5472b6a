import DevkitCommon.Delayx.Lifecycle

/-! What a finished run writes. The outcome is sent under a context made when the run
began, and the text of an error is cut by bytes: the statement is lost when the run has
taken ten seconds or the text is not UTF-8, and the row stays running. -/
namespace DevkitCommon.Delayx
open Machine

def retryDelay (n : Int) : Int := min hour (minute * 2 ^ (n - 1).toNat)

def dictated (max : Int) (t : Task) (now : Int) (err : Option Bytes) (cause : Option Cause)
    (stopping : Bool) : Status × Int × Int :=
  if cause = some .aborted then (.cancelled,t.attempts,t.runAt)
  else match err with
    | none => (.done,t.attempts + 1,t.runAt)
    | some _ =>
      if cause = some .shutdown ∨ stopping then (.pending,t.attempts,now)
      else if max ≤ t.attempts + 1 then (.failed,t.attempts + 1,t.runAt)
      else (.pending,t.attempts + 1,now + retryDelay (t.attempts + 1))

def Task.standing (t : Task) : Status × Int × Int := (t.status,t.attempts,t.runAt)

def Recorded (env : Env) (s t : State) (x : Run) (err : Option Bytes) (cause : Option Cause)
    (row : Task) : Prop :=
  ∃ row' ∈ t.rows, row'.id = row.id ∧ row'.status ≠ .running ∧ row'.standing =
    dictated (env.cfg x.replica).maxAttempts row s.now err cause (s.ctxDone.contains x.replica)

def Timely (s : State) (x : Run) (err : Option Bytes) (cause : Option Cause) : Prop :=
  s.now < x.startedAt + 10 * second ∧ (cause = some .aborted ∨ cause = some .shutdown ∨
    x.replica ∈ s.ctxDone ∨ ∀ text ∈ err, (clip text).IsValidUTF8)
instance (s x err cause) : Decidable (Timely s x err cause) := by unfold Timely; infer_instance

theorem retryBackoff (n : Int) : backoff n = retryDelay n := by
  have exponent : (min (n - 1) 10).toNat = min (n - 1).toNat 10 := by omega
  simp only [backoff,retryDelay,exponent]
  rcases Nat.le_total (n - 1).toNat 10 with small | large
  · rw [Nat.min_eq_left small]
    split <;> omega
  · have grows : 2 ^ 10 ≤ 2 ^ (n - 1).toNat := Nat.pow_le_pow_right (by decide) large
    have capped : hour < minute * 2 ^ 10 := by decide
    have later : hour ≤ minute * 2 ^ (n - 1).toNat := by
      have cast : (2 : Int) ^ 10 ≤ 2 ^ (n - 1).toNat := by exact_mod_cast grows
      simp only [hour,minute,second] at capped ⊢
      omega
    rw [Nat.min_eq_right large,if_pos capped,Int.min_eq_left later]

theorem abortedText : (clip ErrAborted).IsValidUTF8 := by decide
theorem shutdownText : (clip ErrShutdown).IsValidUTF8 := by decide

theorem outcomeText {env s x err cause} : (outcomeOf env s x err cause).lastError.IsValidUTF8 ↔
    (cause = some .aborted ∨ cause = some .shutdown ∨ x.replica ∈ s.ctxDone ∨
      ∀ text ∈ err, (clip text).IsValidUTF8) := by
  simp only [outcomeOf,outcomeFields]
  split
  · rename_i own
    simp [own,abortedText]
  · rename_i own
    split
    · simp [ByteArray.isValidUTF8_empty]
    · split
      · rename_i stopping
        rcases stopping with shut | isOver
        · simp [shut,shutdownText]
        · have done : x.replica ∈ s.ctxDone := by simpa using isOver
          simp [done,shutdownText]
      · rename_i text going
        obtain ⟨still,on⟩ := not_or.mp going
        have here : x.replica ∉ s.ctxDone := by simpa using on
        split <;> simp [own,still,here]

theorem acceptedTimely {env s x err cause} :
    outcomeAccepted s x (outcomeOf env s x err cause) true = true ↔ Timely s x err cause := by
  rw [outcomeAccepted,accepted,Bool.true_and,Bool.and_eq_true,decide_eq_true_iff,decide_eq_true_iff,
    outcomeText]
  rfl

theorem writtenStanding {env s x err cause row} (copy : row.attempts = x.task.attempts) :
    ((outcomeOf env s x err cause).write s.now row).standing =
      dictated (env.cfg x.replica).maxAttempts row s.now err cause (s.ctxDone.contains x.replica) := by
  simp only [outcomeOf,outcomeFields,dictated,← copy]
  split
  · rfl
  · cases err with
    | none => rfl
    | some text =>
      dsimp only
      split
      · rfl
      · split
        · rfl
        · simp [Fields.write,Task.standing,retryBackoff]

structure Finishing (env : Env) (s t : State) (x : Run) (err : Option Bytes) (cause : Option Cause)
    (row : Task) : Prop where
  run : x ∈ s.runs
  back : x.phase = .returned err cause
  current : x.claim = s.claims x.task.id
  mem : row ∈ s.rows
  own : row.id = x.task.id
  running : row.status = .running
  ok : step env s (.outcome x.task.id x.claim true) = some t

theorem recordedTimely {env max s t x err cause row} (lived : Lived env max s)
    (ends : Finishing env s t x err cause row) :
    Recorded env s t x err cause row ↔ Timely s x err cause := by
  have does := stepDoes ends.ok
  rw [← @acceptedTimely env]
  generalize action : Action.outcome x.task.id x.claim true = a at does
  cases does with
  | outcome run back =>
    obtain ⟨sameId,sameClaim,sure⟩ := Action.outcome.inj action
    obtain rfl := Table.sameRow lived.wf.names ends.run run (Prod.ext sameId sameClaim)
    cases back.symm.trans ends.back
    cases sure
    constructor
    · rintro ⟨row',mem,same,left,_⟩
      dsimp only at mem
      split at mem
      · assumption
      · obtain rfl := Table.sameRow lived.wf.ids mem ends.mem same
        exact absurd ends.running left
    · intro written
      have copy := lived.latest x run ends.current row ends.mem ends.own ends.running
      refine ⟨(outcomeOf env s x err cause).write s.now row,?_,rfl,outcomeNotRunning _ _ _ _ _ _,
        writtenStanding copy⟩
      dsimp only
      rw [if_pos written]
      exact Table.updateHit ends.mem (by simp [ends.own,ends.running])
  | _ => cases action

def used (s : State) (id : Nat) : Int := s.journal.starts.count id - s.journal.spared.count id

def Heard (s : State) : Action → Prop
  | .outcome id claim reachable => reachable = true ∧ ∀ x ∈ s.runs, x.name = (id,claim) →
    match x.phase with
    | .returned err cause => Timely s x err cause
    | _ => True
  | a => FreshClaims Run.unfinished s a
instance (s a) : Decidable (Heard s a) := by
  induction a using Action.casesOn <;> unfold Heard <;> try infer_instance
  refine @instDecidableAnd _ _ _ ?_
  refine @List.decidableBAll _ _ (fun x => ?_) _
  refine @instDecidableForall _ _ _ ?_
  generalize x.phase = phase
  induction phase using Phase.casesOn <;> infer_instance

def RunsEnough (max : Int) (s : State) : Action → Prop
  | .start id _ _ => id ∉ s.journal.nils ∧ used s id < max
  | _ => True
instance (max s a) : Decidable (RunsEnough max s a) := by unfold RunsEnough; induction a using Action.casesOn <;> infer_instance

def Closed (s : State) (id : Nat) : Prop :=
  (∀ t ∈ s.rows, t.id = id → t.status.isOpen = false) ∧
  (∀ x ∈ s.runs, x.task.id = id → x.unfinished = false) ∧ id < s.nextId

structure Counted (env : Env) (max : Int) (s : State) : Prop where
  lived : Lived env max s
  owned : Owned s
  known : ∀ id ∈ s.journal.starts, id < s.nextId
  spent : ∀ x ∈ s.runs, x.unfinished = true →
    used s x.task.id ≤ x.task.attempts + if x.phase.active then 1 else 0
  free : ∀ t ∈ s.rows, t.status.isOpen = true →
    (∀ x ∈ s.runs, x.task.id = t.id → x.unfinished = false) → used s t.id ≤ t.attempts
  bound : ∀ id, used s id ≤ max
  closed : ∀ id ∈ s.journal.nils, Closed s id

inductive Noted (env : Env) (s : State) : Action → Journal → Prop where
  | same (a) : Noted env s a s.journal
  | begun {x sp reachable} (run : x ∈ s.runs) (waits : x.waits)
      (handler : spec env x.replica x.task.kind = some sp) :
      Noted env s (.start x.task.id x.claim reachable)
        {s.journal with starts := s.journal.starts ++ [x.task.id]}
  | finished {x err cause reachable} (run : x ∈ s.runs) (back : x.phase = .returned err cause) :
      Noted env s (.outcome x.task.id x.claim reachable)
        (s.journal.finished x.task.id err (outcomeOf env s x err cause))
  | crashed (r) : Noted env s (.crash r) {s.journal with spared := s.journal.spared ++
      (s.runs.filter (fun x => x.replica == r && x.phase.active)).map (fun x => x.task.id)}

theorem journalStep {env s a t} (does : Does env s a t) : Noted env s a t.journal := by
  cases does with
  | runOnce round => rw [(claimedRest _ _ _ s).2.2.2.2.2.1]; exact .same _
  | begin run waiting handler => exact .begun run waiting handler
  | outcome run back => exact .finished run back
  | crash r => exact .crashed r
  | _ => exact .same _

theorem usedFinished {s t : State} {id : Nat} {err f} (journal : t.journal = s.journal.finished id err f)
    (i : Nat) : used t i ≤ used s i := by
  simp only [used,journal,Journal.finished]
  split
  · exact Int.le_refl _
  · split
    · simp only [List.count_append]; omega
    · exact Int.le_refl _

theorem usedSpared {s t : State} {id : Nat} {err f} (journal : t.journal = s.journal.finished id err f)
    (failed : err ≠ none) (status : f.status = .pending) (attempts : f.attempts = none) :
    used t id = used s id - 1 := by
  simp only [used,journal,Journal.finished,failed,status,attempts,if_false,and_self,if_true]
  simp only [List.count_append,List.count_singleton_self]
  omega

theorem usedStep {env s a t} (does : Does env s a t) (id : Nat) : used t id ≤ used s id ∨
    ∃ x ∈ s.runs, ∃ sp reachable, x.task.id = id ∧ x.waits ∧ spec env x.replica x.task.kind = some sp ∧
      a = .start x.task.id x.claim reachable ∧ used t id = used s id + 1 := by
  have noted := journalStep does
  generalize after : t.journal = j at noted
  cases noted with
  | same => exact .inl (by simp [used,after])
  | begun run waits handler =>
    rename_i x sp reachable
    by_cases same : x.task.id = id
    · refine .inr ⟨x,run,sp,reachable,same,waits,handler,rfl,?_⟩
      simp only [used,after,List.count_append,same,List.count_singleton_self]
      omega
    · refine .inl ?_
      simp [used,after,List.count_append,same]
  | finished => exact .inl (usedFinished after id)
  | crashed r =>
    refine .inl ?_
    simp only [used,after,List.count_append]
    omega

theorem startBegins {env s a x x' sp reachable} (change : RunChange env s a x x')
    (how : a = .start x.task.id x.claim reachable) (handler : spec env x.replica x.task.kind = some sp) :
    x'.phase = .handling := by
  cases change with
  | same other | untracked other => exact absurd (congrArg actor how) other
  | canceled _ by' => rw [how] at by'; cases by'
  | begun => rfl
  | unhandled _ missing => rw [handler] at missing; cases missing
  | _ => cases how

theorem waitsIdle {x : Run} (waits : x.waits) : x.phase.active = false := by
  rcases waits with h | h <;> rw [h] <;> rfl

theorem changeActive {env s a x x'} (change : RunChange env s a x x') (on : x'.unfinished = true)
    (active : x.phase.active = true) : x'.phase.active = true := by
  cases change with
  | begun | returned => rfl
  | dispatched waiting => rw [waiting] at active; cases active
  | unhandled | finished => cases on
  | _ => exact active

theorem claimedStay (r : Nat) (now : Int) (ids : List Nat) (s : State) {x} (hx : x ∈ s.runs) :
    x ∈ (ids.foldl (claimOne r now) s).runs := by
  induction ids generalizing s with
  | nil => exact hx
  | cons id rest ih =>
    refine ih _ ?_
    unfold claimOne
    split
    · exact hx
    · exact List.mem_append_left _ hx

theorem runsStay {env s a t} (does : Does env s a t) {x} (hx : x ∈ s.runs) :
    (∃ x' ∈ t.runs, x'.name = x.name) ∨ ∃ r, a = .crash r ∧ x.replica = r := by
  have kept (same : t.runs.map Run.name = s.runs.map Run.name) : ∃ x' ∈ t.runs, x'.name = x.name :=
    List.mem_map.mp (same ▸ List.mem_map.mpr ⟨x,hx,rfl⟩)
  cases does with
  | runOnce round => exact .inl ⟨x,claimedStay _ _ _ s hx,rfl⟩
  | begin | handlerReturn =>
    refine .inl (kept (Eq.trans (Table.updateKeys ?_) (Table.updateKeys ?_))) <;> exact fun _ => rfl
  | cancelLocal | dispatch | unhandled | beaten | lost | beatExit | deadline | outcome | stopRuns
  | stopPoller => exact .inl (kept (Table.updateKeys (fun _ => rfl)))
  | crash r =>
    by_cases own : x.replica = r
    · exact .inr ⟨r,rfl,own⟩
    · exact .inl ⟨x,List.mem_filter.mpr ⟨hx,by simpa using own⟩,rfl⟩
  | _ => exact .inl ⟨x,hx,rfl⟩

theorem sameRun {env s a t} (wf : Wf s) (does : Does env s a t) {x x'} (hx : x ∈ s.runs)
    (hx' : x' ∈ t.runs) (name : x'.name = x.name) : RunChange env s a x x' := by
  rcases runsChange does wf.names x' hx' with ⟨y,hy,change⟩ | ⟨_,_,_,_,_,_,new⟩
  · obtain ⟨_,task,claim⟩ := changeSame change
    have same : y.name = x.name := by rw [← name,Run.name,Run.name,task,claim]
    obtain rfl := Table.sameRow wf.names hy hx same
    exact change
  · obtain ⟨id,claim⟩ := Prod.mk.inj name
    have later := new.later
    have known := wf.counted x hx
    rw [id,claim] at later
    omega

section Counting
variable {env : Env} {max : Int} {s t : State} {a : Action}

theorem initCounted (env : Env) {max : Int} (positive : 0 < max) : Counted env max State.init := by
  refine ⟨initLived env max,initOwned,?_,?_,?_,?_,?_⟩ <;> simp [State.init,used]
  omega

theorem heardFresh (heard : Heard s a) : FreshClaims Run.unfinished s a := by
  cases a <;> first | exact heard | trivial

theorem ownCopy (counted : Counted env max s) {x} (hx : x ∈ s.runs) (on : x.unfinished = true) {y}
    (hy : y ∈ s.rows) (row : y.id = x.task.id) (isOpen : y.status.isOpen = true) :
    y.status = .running ∧ y.attempts = x.task.attempts := by
  have running : y.status = .running := by
    refine (counted.owned.row x hx on y hy row).resolve_left (fun gone => ?_)
    rw [gone] at isOpen
    cases isOpen
  exact ⟨running,counted.lived.latest x hx (counted.owned.held x hx on) y hy row running⟩

theorem rowUsed (counted : Counted env max s) {y} (hy : y ∈ s.rows) (isOpen : y.status.isOpen = true)
    (idle : ∀ x ∈ s.runs, x.task.id = y.id → x.phase.active = false) : used s y.id ≤ y.attempts := by
  by_cases claimed : ∃ x ∈ s.runs, x.task.id = y.id ∧ x.unfinished = true
  · obtain ⟨x,hx,row,on⟩ := claimed
    have spent := counted.spent x hx on
    have copy := (ownCopy counted hx on hy row.symm isOpen).2
    simp only [idle x hx row,row] at spent
    simp only [Bool.false_eq_true,if_false] at spent
    omega
  · refine counted.free y hy isOpen (fun x hx row => ?_)
    cases on : x.unfinished with
    | false => rfl
    | true => exact absurd ⟨x,hx,row,on⟩ claimed

theorem activeUsed (counted : Counted env max s) {x} (hx : x ∈ s.runs) (active : x.phase.active = true)
    {y} (hy : y ∈ s.rows) (row : y.id = x.task.id) (isOpen : y.status.isOpen = true) :
    y.status = .running ∧ used s y.id ≤ y.attempts + 1 := by
  have on : x.unfinished = true := by
    cases phase : x.phase <;> simp [Run.unfinished,phase,Phase.active] at active ⊢
  obtain ⟨running,copy⟩ := ownCopy counted hx on hy row isOpen
  have spent := counted.spent x hx on
  simp only [active,if_true,← row] at spent
  exact ⟨running,by omega⟩

theorem spentStep (counted : Counted env max s) (heard : Heard s a) (ok : step env s a = some t) :
    ∀ x ∈ t.runs, x.unfinished = true →
      used t x.task.id ≤ x.task.attempts + if x.phase.active then 1 else 0 := by
  intro x' hx' on
  have does := stepDoes ok
  rcases runsChange does counted.owned.wf.names x' hx' with ⟨x,hx,change⟩ | ⟨r,now,short,long,_,rfl,new⟩
  · have live := changeUnfinished change on
    have spent := counted.spent x hx live
    rw [(changeSame change).2.1]
    rcases usedStep does x.task.id with less | ⟨y,hy,sp,reachable,row,waits,handler,how,more⟩
    · refine Int.le_trans less (Int.le_trans spent (Int.add_le_add_left ?_ _))
      cases active : x.phase.active with
      | false => simp only [Bool.false_eq_true,if_false]; split <;> omega
      | true => simp [changeActive change on active]
    · obtain rfl := counted.owned.once hy hx (waitingUnfinished waits) live row
      simp only [waitsIdle waits,Bool.false_eq_true,if_false] at spent
      simp only [startBegins change how handler,Phase.active,if_true]
      omega
  · cases does with
    | runOnce round =>
      obtain ⟨once,fresh⟩ := heardFresh heard
      obtain ⟨y,hy,row,isDue⟩ := chosenRow round new.chosen
      have copy := newRunRow counted.owned.wf new hy row
      have free := counted.free y hy (dueOpen isDue) (fun x hx same => by
        cases live : x.unfinished with
        | false => rfl
        | true => exact absurd (by rw [same,row]; exact new.chosen) (fresh x hx live))
      have journal := (claimedRest r now (short ++ long) s).2.2.2.2.2.1
      simp only [used,journal,copy,claimRow] at free ⊢
      split <;> omega

theorem boundStep (counted : Counted env max s) (does : Does env s a t) : ∀ id, used t id ≤ max := by
  intro id
  rcases usedStep does id with less | ⟨x,hx,_,_,rfl,waits,_,_,more⟩
  · exact Int.le_trans less (counted.bound id)
  · have spent := counted.spent x hx (waitingUnfinished waits)
    have left := counted.lived.copies x hx
    simp only [waitsIdle waits,Bool.false_eq_true,if_false] at spent
    omega

theorem startsKnown (counted : Counted env max s) (does : Does env s a t) :
    ∀ id ∈ t.journal.starts, id < t.nextId := by
  intro id mem
  refine Nat.lt_of_lt_of_le ?_ (countersStep does).1
  have noted := journalStep does
  generalize t.journal = j at noted mem
  cases noted with
  | same | crashed => exact counted.known id mem
  | begun run =>
    rcases List.mem_append.mp mem with old | new
    · exact counted.known id old
    · rw [List.mem_singleton.mp new]
      exact counted.owned.wf.known _ run
  | finished =>
    refine counted.known id ?_
    simp only [Journal.finished] at mem
    split at mem
    · exact mem
    · split at mem <;> exact mem

theorem openFields {cfg : Config} {x : Task} {now err cause ctxEnded}
    (isOpen : (outcomeFields cfg x now err cause ctxEnded).status.isOpen = true) :
    err ≠ none ∧ (outcomeFields cfg x now err cause ctxEnded).status = .pending ∧
    ((outcomeFields cfg x now err cause ctxEnded).attempts = none ∨
      (outcomeFields cfg x now err cause ctxEnded).attempts = some (x.attempts + 1)) := by
  simp only [outcomeFields] at isOpen ⊢
  split at isOpen
  · cases isOpen
  · rename_i own
    rw [if_neg own]
    cases err with
    | none => cases isOpen
    | some text =>
      dsimp only at isOpen ⊢
      split at isOpen
      · rename_i stopping
        rw [if_pos stopping]
        exact ⟨by simp,rfl,.inl rfl⟩
      · rename_i going
        rw [if_neg going]
        split at isOpen
        · cases isOpen
        · rename_i left
          rw [if_neg left]
          exact ⟨by simp,rfl,.inr rfl⟩

theorem outcomeJournal (wf : Wf s) (does : Does env s a t) {x} (hx : x ∈ s.runs) {err cause reachable}
    (back : x.phase = .returned err cause) (how : a = .outcome x.task.id x.claim reachable) :
    t.journal = s.journal.finished x.task.id err (outcomeOf env s x err cause) := by
  cases does with
  | outcome run back' =>
    obtain ⟨sameId,sameClaim,_⟩ := Action.outcome.inj how
    obtain rfl := Table.sameRow wf.names hx run (Prod.ext sameId.symm sameClaim.symm)
    cases back'.symm.trans back
    rfl
  | _ => cases how

theorem outcomeRow (counted : Counted env max s) (heard : Heard s a) (does : Does env s a t) {x}
    (hx : x ∈ s.runs) {err cause reachable} (back : x.phase = .returned err cause)
    (how : a = .outcome x.task.id x.claim reachable) {y'} (hy' : y' ∈ t.rows)
    (row : y'.id = x.task.id) : y'.status = .cancelled ∨
      ∃ y ∈ s.rows, y.id = x.task.id ∧ y.status = .running ∧
        y' = (outcomeOf env s x err cause).write s.now y := by
  have on : x.unfinished = true := by simp [Run.unfinished,back]
  cases does with
  | outcome run back' =>
    rename_i z err' cause' reachable'
    obtain ⟨sameId,sameClaim,sure⟩ := Action.outcome.inj how
    obtain rfl := Table.sameRow counted.owned.wf.names run hx (Prod.ext sameId sameClaim)
    cases back'.symm.trans back
    obtain ⟨reach,timely⟩ := heard
    have here := timely z hx rfl
    simp only [back] at here
    subst reach
    dsimp only at hy'
    rw [if_pos (acceptedTimely.mpr here)] at hy'
    obtain ⟨y,hy,⟨hit,rfl⟩ | ⟨miss,rfl⟩⟩ := Table.memUpdate hy'
    · exact .inr ⟨y,hy,row,beq_iff_eq.mp (Bool.and_eq_true_iff.mp hit).2,rfl⟩
    · refine .inl ((counted.owned.row z hx on y' hy row).resolve_right (fun running => ?_))
      simp [row,running] at miss
  | _ => cases how

theorem outcomeFree (counted : Counted env max s) (heard : Heard s a) (does : Does env s a t) {x}
    (hx : x ∈ s.runs) {err cause reachable} (back : x.phase = .returned err cause)
    (how : a = .outcome x.task.id x.claim reachable) {y'} (hy' : y' ∈ t.rows)
    (row : y'.id = x.task.id) (isOpen : y'.status.isOpen = true) : used t y'.id ≤ y'.attempts := by
  rcases outcomeRow counted heard does hx back how hy' row with gone | ⟨y,hy,own,running,rfl⟩
  · rw [gone] at isOpen
    cases isOpen
  · have active : x.phase.active = true := by rw [back]; rfl
    have before := (activeUsed counted hx active hy own (by rw [running]; rfl)).2
    have copy := counted.lived.latest x hx (counted.owned.held x hx (by simp [Run.unfinished,back]))
      y hy own running
    have after := outcomeJournal counted.owned.wf does hx back how
    obtain ⟨failed,pending,requeued | counts⟩ := openFields isOpen
    · have given := usedSpared after failed pending requeued
      have kept : ((outcomeOf env s x err cause).write s.now y).attempts = y.attempts := by
        simp only [Fields.write,outcomeOf,requeued,Option.getD_none]
      rw [kept,row,given]
      rw [own] at before
      omega
    · have less := usedFinished after y.id
      have more : ((outcomeOf env s x err cause).write s.now y).attempts = y.attempts + 1 := by
        simp only [Fields.write,outcomeOf,counts,Option.getD_some,copy]
      rw [more]
      exact Int.le_trans less before

theorem crashFree (counted : Counted env max s) {r} (does : Does env s (.crash r) t) {x}
    (hx : x ∈ s.runs) (active : x.phase.active = true) (lost : x.replica = r) {y} (hy : y ∈ t.rows)
    (row : y.id = x.task.id) (isOpen : y.status.isOpen = true) : used t y.id ≤ y.attempts := by
  cases does with
  | crash =>
    have before := (activeUsed counted hx active hy row isOpen).2
    have inside : y.id ∈ (s.runs.filter (fun x => x.replica == r && x.phase.active)).map
        (fun x => x.task.id) :=
      List.mem_map.mpr ⟨x,List.mem_filter.mpr ⟨hx,by simp [lost,active]⟩,row.symm⟩
    have given := List.count_pos_iff.mpr inside
    simp only [used,List.count_append] at before ⊢
    omega

theorem freeStep (counted : Counted env max s) (heard : Heard s a) (ok : step env s a = some t) :
    ∀ y ∈ t.rows, y.status.isOpen = true →
      (∀ x ∈ t.runs, x.task.id = y.id → x.unfinished = false) → used t y.id ≤ y.attempts := by
  intro y' hy' isOpen alone
  have does := stepDoes ok
  have wf := counted.owned.wf
  by_cases running : ∃ x ∈ s.runs, x.task.id = y'.id ∧ x.phase.active = true
  · obtain ⟨x,hx,row,active⟩ := running
    rcases runsStay does hx with ⟨x',hx',name⟩ | ⟨r,rfl,lost⟩
    · -- The run that was in progress is over: the step is its outcome.
      have change := sameRun wf does hx hx' name
      have isOver := alone x' hx' ((congrArg Prod.fst name).trans row)
      cases change with
      | finished back => exact outcomeFree counted heard does hx back rfl hy' row.symm isOpen
      | unhandled waiting => rw [waitsIdle waiting] at active; cases active
      | begun | dispatched | returned => cases isOver
      | _ =>
        have on : x.unfinished = true := by
          cases phase : x.phase <;> simp [Run.unfinished,phase,Phase.active] at active ⊢
        exact absurd (on.symm.trans isOver) (by simp)
    · exact crashFree counted does hx active lost hy' row.symm isOpen
  · have idle : ∀ x ∈ s.runs, x.task.id = y'.id → x.phase.active = false := by
      intro x hx row
      cases active : x.phase.active with
      | false => rfl
      | true => exact absurd ⟨x,hx,row,active⟩ running
    have less : used t y'.id ≤ used s y'.id := by
      rcases usedStep does y'.id with less | ⟨x,hx,sp,reachable,row,waits,handler,how,_⟩
      · exact less
      · rcases runsStay does hx with ⟨x',hx',name⟩ | ⟨_,rfl,_⟩
        · have change := sameRun wf does hx hx' name
          have begun := startBegins change how handler
          have isOver := alone x' hx' ((congrArg Prod.fst name).trans row)
          simp [Run.unfinished,begun] at isOver
        · cases how
    rcases rowsChange does wf.ids y' hy' with ⟨y,hy,next⟩ | ⟨_,_,_,rfl,rfl⟩
    · have id := (changeId next).1
      rw [id] at idle less ⊢
      have before (wasOpen : y.status.isOpen = true) : used t y.id ≤ y.attempts :=
        Int.le_trans less (rowUsed counted hy wasOpen idle)
      cases next with
      | same => exact before isOpen
      | cancelled | aborted => cases isOpen
      | claimed _ isDue => exact before (dueOpen isDue)
      | unhandled _ _ _ status | beaten _ _ _ status => exact before (by rw [status]; rfl)
      | finished run back row => 
        have busy := idle _ run row.symm
        rw [back] at busy
        cases busy
    · have new : s.nextId ∉ s.journal.starts := fun mem => Nat.lt_irrefl _ (counted.known _ mem)
      simp only [used,List.count_eq_zero.mpr new] at less ⊢
      omega

theorem closedStep (counted : Counted env max s) (ok : step env s a = some t) {id}
    (closed : Closed s id) : Closed t id := by
  obtain ⟨final,isOver,known⟩ := closed
  have does := stepDoes ok
  have wf := counted.owned.wf
  refine ⟨?_,?_,Nat.lt_of_lt_of_le known (countersStep does).1⟩
  · rintro y' hy' rfl
    exact final y' (finalKept wf ok hy' known final) rfl
  · rintro x' hx' rfl
    rcases runsChange does wf.names x' hx' with ⟨x,hx,change⟩ | ⟨r,now,short,long,_,rfl,new⟩
    · have before := isOver x hx (by rw [(changeSame change).2.1])
      cases on : x'.unfinished with
      | false => rfl
      | true => rw [changeUnfinished change on] at before; cases before
    · cases does with
      | runOnce round =>
        obtain ⟨y,hy,row,isDue⟩ := chosenRow round new.chosen
        have closed := final y hy row
        rw [dueOpen isDue] at closed
        cases closed

theorem nilsClosed (counted : Counted env max s) (heard : Heard s a) (ok : step env s a = some t) :
    ∀ id ∈ t.journal.nils, Closed t id := by
  intro id mem
  have does := stepDoes ok
  have wf := counted.owned.wf
  have noted := journalStep does
  generalize t.journal = j at noted mem
  cases noted with
  | same | begun | crashed => exact closedStep counted ok (counted.closed id mem)
  | finished run back =>
    rename_i x err cause reachable
    have old (mem : id ∈ s.journal.nils) : Closed t id := closedStep counted ok (counted.closed id mem)
    simp only [Journal.finished] at mem
    split at mem
    · rename_i none
      rcases List.mem_append.mp mem with before | new
      · exact old before
      · obtain rfl := List.mem_singleton.mp new
        refine ⟨?_,?_,Nat.lt_of_lt_of_le (wf.known x run) (countersStep does).1⟩
        · intro y' hy' row
          rcases outcomeRow counted heard does run back rfl hy' row with gone | ⟨y,_,_,_,rfl⟩
          · rw [gone]; rfl
          · cases isOpen : ((outcomeOf env s x err cause).write s.now y).status.isOpen with
            | false => rfl
            | true => exact absurd none (openFields isOpen).1
        · intro z' hz' row
          rcases runsChange does wf.names z' hz' with ⟨z,hz,change⟩ | ⟨_,_,_,_,_,how,_⟩
          · cases on : z'.unfinished with
            | false => rfl
            | true =>
              have live := changeUnfinished change on
              have same : z.task.id = x.task.id := by rw [← row,(changeSame change).2.1]
              obtain rfl := counted.owned.once hz run live (by simp [Run.unfinished,back]) same
              simp [Run.unfinished,outcomeEnds change rfl] at on
          · cases how
    · split at mem <;> exact old mem

theorem countedStep (one : ∀ r, (env.cfg r).maxAttempts = max) (counted : Counted env max s)
    (heard : Heard s a) (ok : step env s a = some t) : Counted env max t where
  lived := livedStep one counted.lived ok
  owned := ownedStep counted.owned (heardFresh heard) ok
  known := startsKnown counted (stepDoes ok)
  spent := spentStep counted heard ok
  free := freeStep counted heard ok
  bound := boundStep counted (stepDoes ok)
  closed := nilsClosed counted heard ok

theorem countedEnough (counted : Counted env max s) (ok : step env s a = some t) :
    RunsEnough max s a := by
  have does := stepDoes ok
  have enough {x : Run} (hx : x ∈ s.runs) (waits : x.waits) :
      x.task.id ∉ s.journal.nils ∧ used s x.task.id < max := by
    have on := waitingUnfinished waits
    have spent := counted.spent x hx on
    have left := counted.lived.copies x hx
    simp only [waitsIdle waits,Bool.false_eq_true,if_false] at spent
    refine ⟨fun mem => ?_,by omega⟩
    have isOver := (counted.closed _ mem).2.1 x hx rfl
    rw [on] at isOver
    cases isOver
  cases does with
  | begin run waiting | unhandled run waiting => exact enough run waiting
  | _ => trivial

end Counting

theorem outcomesRecorded (env : Env) (max : Int) (one : ∀ r, (env.cfg r).maxAttempts = max) :
    (∀ s t x err cause row, Reachable (step env) State.init s → Finishing env s t x err cause row →
      (Recorded env s t x err cause row ↔ Timely s x err cause)) ∧
    ∀ as, Along (step env) Heard State.init as → Along (step env) (RunsEnough max) State.init as := by
  constructor
  · intro s t x err cause row ok ends
    have lived := reachableKeeps (fun lived ok => livedStep one lived ok) (initLived env max) ok
    exact recordedTimely lived ends
  · intro as heard
    have positive : 0 < max := one 0 ▸ maxAttemptsPositive _
    exact alongKeeps (fun counted here ok => countedStep one counted here ok)
      (fun counted _ ok => countedEnough counted ok) (initCounted env positive) heard

def finishedAfter (d : Nat) : List Action :=
  [.schedule "report" "a" 0,.runOnce 0 0 [1] [] [],.start 1 1 true,.tick d,.handlerReturn 1 1 .nil,
    .beatExit 1 1]

def finishing (env : Env) (d : Nat) (p : State → Run → Bool) : Bool :=
  (run (step env) State.init (finishedAfter d)).any fun s => s.runs.any fun x => s.rows.any fun row =>
    x.phase == .returned none none && x.claim == s.claims x.task.id && row.id == x.task.id &&
      row.status == .running && (step env s (.outcome x.task.id x.claim true)).isSome && p s x

theorem finishingFound {env d p} (found : finishing env d p = true) :
    ∃ s t x row, Reachable (step env) State.init s ∧ Finishing env s t x none none row ∧ p s x = true := by
  obtain ⟨s,ok,found⟩ := (Option.any_eq_true _ _).mp found
  obtain ⟨x,run,found⟩ := List.any_eq_true.mp found
  obtain ⟨row,mem,found⟩ := List.any_eq_true.mp found
  simp only [Bool.and_eq_true,beq_iff_eq] at found
  obtain ⟨⟨⟨⟨⟨back,current⟩,own⟩,running⟩,enabled⟩,holds⟩ := found
  obtain ⟨t,done⟩ := Option.isSome_iff_exists.mp enabled
  exact ⟨s,t,x,row,⟨_,ok⟩,⟨run,back,current,mem,own,running,done⟩,holds⟩

theorem promptRecorded : Along (step (reports 0)) (RunsEnough 5) State.init twoLives ∧
    ∃ s t x row, Finishing (reports 0) s t x none none row ∧
      Recorded (reports 0) s t x none none row := by
  have both := outcomesRecorded (reports 0) 5 (fun _ => rfl)
  have found : finishing (reports 0) 9000 (fun s x => decide (Timely s x none none)) = true := by
    decide
  obtain ⟨s,t,x,row,ok,ends,timely⟩ := finishingFound found
  exact ⟨both.2 twoLives (by decide),s,t,x,row,ends,
    (both.1 s t x none none row ok ends).mpr (of_decide_eq_true timely)⟩

theorem slowUnrecorded : ¬ ∀ env max, (∀ r, (env.cfg r).maxAttempts = max) →
    ∀ s t x err cause row, Reachable (step env) State.init s → Finishing env s t x err cause row →
      s.now ≤ x.startedAt + runTimeout env x → Recorded env s t x err cause row := by
  intro recorded
  have found : finishing (reports 0) 11000 (fun s x => !decide (Timely s x none none) &&
      decide (s.now ≤ x.startedAt + runTimeout (reports 0) x)) = true := by decide
  obtain ⟨s,t,x,row,ok,ends,late⟩ := finishingFound found
  obtain ⟨late,within⟩ := Bool.and_eq_true_iff.mp late
  have written := recorded (reports 0) 5 (fun _ => rfl) s t x none none row ok ends
    (of_decide_eq_true within)
  have lived := reachableKeeps (fun lived ok => livedStep (fun _ => rfl) lived ok)
    (initLived (reports 0) 5) ok
  simp [(recordedTimely lived ends).mp written] at late

end DevkitCommon.Delayx
