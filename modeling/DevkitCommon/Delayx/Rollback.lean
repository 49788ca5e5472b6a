import DevkitCommon.Delayx.Abort

/-! An Abort whose transaction does not commit. The rows go back with the transaction,
cancelLocal does not: erasing the call from a run changes nothing as long as it met no
live handler, and a handler it met writes its row cancelled. -/
namespace DevkitCommon.Delayx
open Machine

def caller : Action → Option Nat
  | .abortRead name _ _ _ _ | .abortUpdate name | .cancelLocal name | .commit name
  | .rollback name => some name
  | _ => none

def Uncommitted (name : Nat) : Action → Prop
  | .commit n => n ≠ name
  | .abortRead n _ _ _ inTx => n = name → inTx = true
  | _ => True
instance (name a) : Decidable (Uncommitted name a) := by unfold Uncommitted; induction a using Action.casesOn <;> infer_instance

def erase (name : Nat) (as : List Action) : List Action :=
  as.filter (fun a => caller a != some name)

def State.without (s : State) (name : Nat) : State :=
  {s with aborts := s.aborts.filter (fun c => c.name != name)}

def MeetsNoRun (name : Nat) (s : State) : Action → Prop
  | .cancelLocal n => n = name → ∀ c ∈ s.aborts, c.name = name → ∀ id ∈ c.todo.head?,
    ∀ x ∈ s.runs, x.replica = c.replica → x.task.id = id → x.tracked = true → x.cause ≠ none
  | _ => True
instance (name s a) : Decidable (MeetsNoRun name s a) := by
  unfold MeetsNoRun; induction a using Action.casesOn <;> infer_instance

def Alike (a b : Action) : Prop :=
  a = b ∨ ∃ id claim h h', a = .handlerReturn id claim h ∧ b = .handlerReturn id claim h'

def EndsAsIf (env : Env) (name : Nat) (as : List Action) (t : State) : Prop :=
  ∃ bs t', List.Forall₂ Alike (erase name as) bs ∧
    run (step env) State.init bs = some t' ∧ t'.rows = t.rows

theorem lockedWithout {s : State} {name id : Nat} (free : s.locked id = false) :
    (s.without name).locked id = false := by
  simp only [State.locked,State.without,List.any_eq_false] at free ⊢
  exact fun c mem => free c (List.mem_filter.mp mem).1

theorem findWithout {calls : List AbortCall} {name n : Nat} (other : n ≠ name) :
    (calls.filter (fun c => c.name != name)).find? (fun c => c.name == n) =
      calls.find? (fun c => c.name == n) := by
  rw [List.find?_filter]
  congr 1
  funext c
  by_cases same : c.name = n
  · simp [same,other]
  · simp [same]

theorem setCallWithout {c : AbortCall} {calls : List AbortCall} {name : Nat} :
    (setCall c calls).filter (fun d => d.name != name) =
      setCall c (calls.filter (fun d => d.name != name)) :=
  Table.filterUpdate (fun x same => by simp [beq_iff_eq.mp same])

theorem setCallErased {c : AbortCall} {calls : List AbortCall} {name : Nat} (own : c.name = name) :
    (setCall c calls).filter (fun d => d.name != name) = calls.filter (fun d => d.name != name) :=
  Table.filterUpdated (fun x same => by simp [beq_iff_eq.mp same,own])

theorem claimedWithout (r : Nat) (now : Int) (ids : List Nat) (s : State) (calls : List AbortCall) :
    ids.foldl (claimOne r now) {s with aborts := calls} =
      {ids.foldl (claimOne r now) s with aborts := calls} := by
  induction ids generalizing s with
  | nil => rfl
  | cons id rest ih =>
    have one : claimOne r now {s with aborts := calls} id = {claimOne r now s id with aborts := calls} := by
      unfold claimOne
      dsimp only
      split <;> rfl
    rw [List.foldl_cons,List.foldl_cons,one,ih]

theorem abortReadWithout (env : Env) (s : State) {name n r : Nat} {kind key : String} {inTx : Bool}
    (differs : n ≠ name) : abortRead env (s.without name) n r kind key inTx =
      (abortRead env s n r kind key inTx).map (fun t => t.without name) := by
  have taken : (s.without name).aborts.any (fun c => c.name == n) = s.aborts.any (fun c => c.name == n) := by
    simp only [State.without,List.any_filter]
    congr 1
    funext c
    by_cases same : c.name = n
    · simp [same,differs]
    · simp [same]
  have own : (newCall env s n r kind key inTx).name = n := rfl
  simp only [abortRead]
  rw [taken,apply_ite (Option.map _)]
  congr 1
  simp only [Option.map_some,State.without,List.filter_append]
  simp [own,differs]
  rfl

theorem runOnceWithout (env : Env) (s : State) (name r : Nat) (now : Int) (short long skipped : List Nat) :
    runOnce env (s.without name) r now short long skipped =
      (runOnce env s r now short long skipped).map (fun t => t.without name) := by
  have claimed : (short ++ long).foldl (claimOne r now) (s.without name) =
      ((short ++ long).foldl (claimOne r now) s).without name := by
    have calls := (claimedRest r now (short ++ long) s).2.2.2.2.1
    simp only [State.without,claimedWithout,calls]
  simp only [runOnce,apply_ite (Option.map _),Option.map_some,Option.map_none]
  congr 1
  exact congrArg some claimed

theorem performWithout (env : Env) (s : State) {name : Nat} {a : Action} (other : caller a ≠ some name) :
    perform env (s.without name) a = (perform env s a).map (fun t => t.without name) := by
  have found {n} (differs : caller a = some n) :
      (s.without name).aborts.find? (fun c => c.name == n) = s.aborts.find? (fun c => c.name == n) :=
    findWithout (fun same => other (by rw [differs,same]))
  cases a with
  | schedule => simp only [perform,schedule]; split <;> rfl
  | view => simp only [perform,view,apply_ite (Option.map _)]; rfl
  | abortRead n r kind key inTx => exact abortReadWithout env s (fun same => other (congrArg some same))
  | abortUpdate | commit | rollback =>
    simp only [perform,abortUpdate,commit,rollback,bind,Option.map_bind,found rfl]
    congr 1
    funext c
    simp only [Function.comp_apply,apply_ite (Option.map _),Option.map_some,Option.map_none,
      State.without,setCallWithout]
  | cancelLocal =>
    simp only [perform,cancelLocal,bind,Option.map_bind,found rfl]
    congr 1
    funext c
    simp only [Function.comp_apply]
    split
    · rfl
    · simp only [apply_ite (Option.map _),Option.map_some,Option.map_none,State.without,setCallWithout]
  | runOnce r now short long skipped => exact runOnceWithout env s name r now short long skipped
  | start =>
    simp only [perform,start,bind,Option.map_bind]
    congr 1
    funext x
    simp only [Function.comp_apply,apply_ite (Option.map _),Option.map_none]
    congr 1
    split <;> rfl
  | outcome =>
    simp only [perform,outcome,bind,Option.map_bind]
    congr 1
    funext x
    simp only [Function.comp_apply]
    split <;> rfl
  | dispatch | beat | beatExit | deadline | handlerReturn =>
    simp only [perform,dispatch,beat,beatExit,deadline,handlerReturn,bind,Option.map_bind]
    congr 1
    funext x
    simp only [Function.comp_apply,apply_ite (Option.map _)]
    rfl
  | crash r => simp only [perform,crash,State.without,Option.map_some,List.filter_filter,Bool.and_comm]
  | cleanup r ids => simp only [perform,cleanup,apply_ite (Option.map _)]; rfl
  | _ => rfl

theorem touchesWithout (env : Env) (s : State) {name : Nat} {a : Action} (other : caller a ≠ some name) :
    touches env (s.without name) a = touches env s a := by
  cases a with
  | abortUpdate n =>
    have differs : n ≠ name := fun same => other (congrArg some same)
    simp only [touches]
    rw [show (s.without name).aborts.find? (fun c => c.name == n) = s.aborts.find? (fun c => c.name == n)
      from findWithout differs]
  | start _ _ reachable | beat _ _ reachable | outcome _ _ reachable => cases reachable <;> rfl
  | _ => rfl

theorem stepWithout {env s t name a} (other : caller a ≠ some name) (ok : step env s a = some t) :
    step env (s.without name) a = some (t.without name) := by
  obtain ⟨done,free⟩ := stepPerforms ok
  have unblocked : ¬ (touches env (s.without name) a).any (s.without name).locked = true := by
    rw [touchesWithout env s other]
    intro blocked
    obtain ⟨id,mem,locked⟩ := List.any_eq_true.mp blocked
    rw [lockedWithout (free id mem)] at locked
    contradiction
  rw [step,if_neg unblocked,performWithout env s other,done]
  rfl

theorem cancelAgain {x : Run} {cause : Cause} (ended : x.cause ≠ none) : x.cancelWith cause = x := by
  cases h : x.cause with
  | none => exact absurd h ended
  | some first =>
    simp only [Run.cancelWith,h,Option.getD_some]
    rw [← h]

def InTx (name : Nat) (s : State) : Prop := ∀ c ∈ s.aborts, c.name = name → c.inTx = true

theorem inTxStep {env s t name a} (tx : InTx name s) (uncommitted : Uncommitted name a)
    (ok : step env s a = some t) : InTx name t := by
  intro c' hc' own
  rcases callsChange (stepDoes ok) c' hc' with ⟨c,hc,change⟩ | ⟨_,r,kind,key,inTx,rfl,_,rfl⟩
  · have old := tx _ hc
    cases change <;> exact old own
  · exact uncommitted own

theorem ownStep {env s t name a} (own : caller a = some name) (tx : InTx name s)
    (uncommitted : Uncommitted name a) (quiet : MeetsNoRun name s a) (ok : step env s a = some t) :
    t.without name = s.without name := by
  have kept {d : AbortCall} (same : d.name = name) :
      ({s with aborts := setCall d s.aborts} : State).without name = s.without name :=
    congrArg (fun calls => {s with aborts := calls}) (setCallErased same)
  cases stepDoes ok with
  | abortRead alive new =>
    cases Option.some.inj own
    simp [State.without,newCall]
  | abortOpens call reading inTx => exact kept (Option.some.inj own)
  | abortWrites call reading plain =>
    rw [tx _ call (Option.some.inj own)] at plain
    contradiction
  | cancelLocal call todo past =>
    rename_i c id rest
    have mine := quiet (Option.some.inj own) _ call (Option.some.inj own) _ (by rw [todo]; rfl)
    have runs : Table.update (fun x => x.replica == c.replica && x.task.id == id && x.tracked)
        (Run.cancelWith .aborted) s.runs = s.runs := by
      refine Table.updateFixed (fun x hx hit => cancelAgain ?_)
      simp only [Bool.and_eq_true,beq_iff_eq] at hit
      exact mine x hx hit.1.1 hit.1.2 hit.2
    rw [runs]
    exact kept (Option.some.inj own)
  | commit => exact absurd (Option.some.inj own) uncommitted
  | rollback call opened => exact kept (Option.some.inj own)
  | _ => cases own

def Mirrors (name : Nat) (s s' : State) : Prop := s' = s.without name ∧ InTx name s

theorem erasedRun {env name as t} (uncommitted : ∀ a ∈ as, Uncommitted name a)
    (quiet : Along (step env) (MeetsNoRun name) State.init as)
    (ok : run (step env) State.init as = some t) :
    run (step env) State.init (erase name as) = some (t.without name) := by
  have kept : ∀ {s s' : State} {a t}, Mirrors name s s' → Uncommitted name a ∧ MeetsNoRun name s a →
      step env s a = some t → (caller a != some name) = true →
      ∃ t', step env s' a = some t' ∧ Mirrors name t t' := by
    rintro s s' a t ⟨rfl,tx⟩ sure ok keep
    exact ⟨_,stepWithout (by simpa using keep) ok,rfl,inTxStep tx sure.1 ok⟩
  have unseen : ∀ {s s' : State} {a t}, Mirrors name s s' → Uncommitted name a ∧ MeetsNoRun name s a →
      step env s a = some t → (caller a != some name) = false → Mirrors name t s' := by
    rintro s s' a t ⟨rfl,tx⟩ sure ok drop
    exact ⟨(ownStep (by simpa using drop) tx sure.1 sure.2 ok).symm,inTxStep tx sure.1 ok⟩
  have along := alongAnd (alongForall uncommitted State.init) quiet
  have start : Mirrors name State.init State.init := ⟨rfl,by simp [InTx,State.init]⟩
  obtain ⟨t',done,rfl,_⟩ := runErases kept unseen start along ok
  exact done

theorem rolledBackAborts (env : Env) (name : Nat) (as : List Action) (t : State)
    (uncommitted : ∀ a ∈ as, Uncommitted name a)
    (quiet : Along (step env) (MeetsNoRun name) State.init as)
    (ok : run (step env) State.init as = some t) : EndsAsIf env name as t := by
  refine ⟨_,_,?_,erasedRun uncommitted quiet ok,rfl⟩
  exact List.forall₂_same.mpr (fun a _ => .inl rfl)

def withdrawn : List Action :=
  [.schedule "report" "a" 0,.schedule "report" "b" 9000,.runOnce 0 0 [1] [] [],.start 1 1 true,
    .abortRead 7 0 "report" "b" true,.abortUpdate 7,.cancelLocal 7,.rollback 7,
    .abortRead 8 1 "report" "a" true,.abortUpdate 8,.cancelLocal 8,.rollback 8,
    .tick 9000,.handlerReturn 1 1 .nil,.beatExit 1 1,.outcome 1 1 true,
    .runOnce 1 9000 [2] [] [],.start 2 1 true]

theorem withdrawnNoTrace : ∃ t, run (step (reports 0)) State.init withdrawn = some t ∧
    EndsAsIf (reports 0) 7 withdrawn t := by
  have enabled : (run (step (reports 0)) State.init withdrawn).isSome := by decide
  obtain ⟨t,ok⟩ := Option.isSome_iff_exists.mp enabled
  exact ⟨t,ok,rolledBackAborts (reports 0) 7 withdrawn t (by decide) (by decide) ok⟩

def Calm : Action → Prop
  | .cancel _ _ | .abortRead _ _ _ _ _ | .cancelLocal _ | .beat _ _ true => False
  | _ => True
instance (a) : Decidable (Calm a) := by
  unfold Calm; induction a using Action.casesOn <;> try infer_instance
  rename_i ended
  induction ended using Bool.casesOn <;> infer_instance

structure Unaborted (s : State) : Prop where
  wf : Wf s
  calls : ∀ c, c ∉ s.aborts
  causes : ∀ x ∈ s.runs, x.cause ≠ some .aborted
  returned : ∀ x ∈ s.runs, ∀ err, x.phase ≠ .returned err (some .aborted)
  rows : ∀ t ∈ s.rows, t.status ≠ .cancelled

theorem firstCause {x : Run} {cause : Cause} (own : x.cause ≠ some .aborted) (other : cause ≠ .aborted) :
    (x.cancelWith cause).cause ≠ some .aborted := by
  cases h : x.cause with
  | none => simpa [Run.cancelWith,h] using other
  | some first => simpa [Run.cancelWith,h] using own

theorem unabortedRun {env s a x x'} (calm : Calm a) (inv : Unaborted s) (hx : x ∈ s.runs)
    (change : RunChange env s a x x') :
    x'.cause ≠ some .aborted ∧ ∀ err, x'.phase ≠ .returned err (some .aborted) := by
  have cause := inv.causes x hx
  have phase := inv.returned x hx
  cases change with
  | canceled by' how =>
    refine ⟨firstCause cause ?_,phase⟩
    rintro rfl
    cases a <;> simp [cancels] at how
    exact calm
  | expired => exact ⟨firstCause cause (by simp),phase⟩
  | begun => exact ⟨by dsimp only; split <;> simp,by simp⟩
  | returned => exact ⟨firstCause cause (by simp),by simp [cause]⟩
  | dispatched | unhandled | finished => exact ⟨cause,by simp⟩
  | beaten | lost => exact absurd calm id
  | _ => exact ⟨cause,phase⟩

theorem outcomeCancelled {cfg t now err cause ctxEnded}
    (gone : (outcomeFields cfg t now err cause ctxEnded).status = .cancelled) : cause = some .aborted := by
  simp only [outcomeFields] at gone
  split at gone
  · assumption
  · split at gone
    · cases gone
    · split at gone
      · cases gone
      · split at gone <;> cases gone

theorem unabortedStep {env s a t} (inv : Unaborted s) (calm : Calm a) (ok : step env s a = some t) :
    Unaborted t := by
  have does := stepDoes ok
  have runs : ∀ x ∈ t.runs, x.cause ≠ some .aborted ∧ ∀ err, x.phase ≠ .returned err (some .aborted) := by
    intro x' hx'
    rcases runsChange does inv.wf.names x' hx' with ⟨x,hx,change⟩ | ⟨_,_,_,_,_,rfl,new⟩
    · exact unabortedRun calm inv hx change
    · obtain ⟨_,_,shape⟩ := new.shape
      rw [shape]
      simp
  refine ⟨wfStep inv.wf ok,?_,fun x hx => (runs x hx).1,fun x hx => (runs x hx).2,?_⟩
  · intro c' hc'
    rcases callsChange does c' hc' with ⟨c,hc,_⟩ | ⟨_,_,_,_,_,rfl,_,_⟩
    · exact inv.calls c hc
    · exact calm
  · intro x' hx'
    rcases rowsChange does inv.wf.ids x' hx' with ⟨x,hx,change⟩ | ⟨_,_,_,_,rfl⟩
    · cases change with
      | same => exact inv.rows _ hx
      | cancelled => exact absurd calm id
      | aborted call => exact absurd call (inv.calls _)
      | claimed | unhandled => simp [claimRow,noHandlerFields]
      | beaten => exact absurd calm id
      | finished run back =>
        intro gone
        have cause := outcomeCancelled gone
        rw [cause] at back
        exact inv.returned _ run _ back
    · simp

theorem calmNeverCancels {env as t} (calm : ∀ a ∈ as, Calm a)
    (ok : run (step env) State.init as = some t) : ∀ x ∈ t.rows, x.status ≠ .cancelled := by
  have start : Unaborted State.init := ⟨initWf,by simp [State.init],by simp [State.init],
    by simp [State.init],by simp [State.init]⟩
  exact (runKeeps (fun inv here ok => unabortedStep inv here ok) start
    (alongForall calm State.init) ok).rows

theorem alikeCalm {as bs : List Action} (alike : List.Forall₂ Alike as bs) (calm : ∀ a ∈ as, Calm a) :
    ∀ b ∈ bs, Calm b := by
  induction alike with
  | nil => simp
  | cons here _ ih =>
    intro b mem
    rcases List.mem_cons.mp mem with rfl | later
    · rcases here with rfl | ⟨_,_,_,_,_,rfl⟩
      · exact calm _ List.mem_cons_self
      · trivial
    · exact ih (fun a mem => calm a (List.mem_cons_of_mem _ mem)) b later

/- The transaction of the Abort rolls back and the task was never aborted, but its handler
has been told so: whatever it returns is written as cancelled. -/
def rolledBackLive : List Action :=
  [.schedule "report" "a" 0,.runOnce 0 0 [1] [] [],.start 1 1 true,
    .abortRead 7 0 "report" "a" true,.abortUpdate 7,.cancelLocal 7,.rollback 7,
    .handlerReturn 1 1 (.err "interrupted".toUTF8),.beatExit 1 1,.outcome 1 1 true]

theorem rolledBackCancels : ¬ ∀ env name as t, (∀ a ∈ as, Uncommitted name a) →
    run (step env) State.init as = some t → EndsAsIf env name as t := by
  intro ends
  have rows : (run (step (reports 0)) State.init rolledBackLive).map (fun t => t.rows.map Task.status) =
      some [.cancelled] := by decide
  obtain ⟨t,ok,status⟩ := Option.map_eq_some_iff.mp rows
  obtain ⟨bs,t',alike,done,same⟩ := ends (reports 0) 7 rolledBackLive t (by decide) ok
  have calm := alikeCalm alike (by decide)
  rw [← same] at status
  obtain ⟨x,hx,gone⟩ := List.mem_map.mp (status ▸ List.mem_cons_self)
  exact calmNeverCancels calm done x hx gone

end DevkitCommon.Delayx
