import DevkitCommon.Delayx.Fencing

/-! A claim as a lease on its row. locked_at is written at the claim and then only by the
heartbeat, which starts with the handler and ends with its context; in between, the
lease runs on the last touch alone. Where every round comes within stale() of it, one
claim is live at a time. -/
namespace DevkitCommon.Delayx
open Machine

def Run.touched (x : Run) : Option Int := if x.beaten then some x.beatAt else x.task.lockedAt

def lands (env : Env) (s : State) (x : Run) (reachable : Bool) : Bool :=
  match x.phase with
  | .returned err cause => outcomeAccepted s x (outcomeOf env s x err cause) reachable
  | _ => true

/- What is taken for granted of the deployment: every statement of a live process
succeeds, a heartbeat goroutine is never late, a handler ends within its timeout. -/
def Punctual (env : Env) (s : State) : Action → Prop
  | .tick d => ∀ x ∈ s.runs,
    (x.beating = true → s.now + d ≤ x.beatAt + (env.cfg x.replica).heartbeat) ∧
    (x.phase = .handling → s.now + d ≤ x.startedAt + runTimeout env x)
  | .start _ _ reachable | .beat _ _ reachable => reachable = true
  | .outcome id claim reachable => ∀ x ∈ s.runs, x.name = (id,claim) → lands env s x reachable = true
  | _ => True
instance (env s a) : Decidable (Punctual env s a) := by unfold Punctual; induction a using Action.casesOn <;> infer_instance

/- A round comes within stale() of the last touch of every live claim that no heartbeat
keeps fresh: one that waits in its batch, has not ticked yet, or has lost its context. -/
def Covered (env : Env) (s : State) : Action → Prop
  | .runOnce r now short long _ => (short ++ long).Nodup ∧ 0 ≤ (env.cfg r).stale ∧
    ∀ x ∈ s.runs, x.unfinished = true → (env.cfg x.replica).heartbeat ≤ (env.cfg r).stale ∧
      ((x.beating = true ∧ x.beaten = true) ∨ ∀ l ∈ x.touched, now ≤ l + (env.cfg r).stale)
  | _ => True
instance (env s a) : Decidable (Covered env s a) := by unfold Covered; induction a using Action.casesOn <;> infer_instance

def Alone (s : State) : Action → Prop
  | .runOnce _ _ short long _ => ∀ x ∈ s.runs, x.unfinished = true → x.task.id ∉ short ++ long
  | .start id _ _ => ∀ x ∈ s.runs, x.phase.active = true → x.task.id ≠ id
  | _ => True
instance (s a) : Decidable (Alone s a) := by unfold Alone; induction a using Action.casesOn <;> infer_instance

structure Leased (env : Env) (s : State) : Prop where
  owned : Owned s
  early : ∀ x ∈ s.runs, x.waits → x.beaten = false ∧ x.beating = false
  past : ∀ x ∈ s.runs, ∀ m ∈ x.touched, m ≤ s.now
  onTime : ∀ x ∈ s.runs, x.beating = true → s.now ≤ x.beatAt + max 0 (env.cfg x.replica).heartbeat
  touched : ∀ x ∈ s.runs, x.unfinished = true → ∀ t ∈ s.rows, t.id = x.task.id →
    t.status = .running → ∃ m l, x.touched = some m ∧ t.lockedAt = some l ∧ m ≤ l

theorem initLeased (env : Env) : Leased env State.init :=
  ⟨initOwned,by simp [State.init],by simp [State.init],by simp [State.init],by simp [State.init]⟩

theorem leasedFresh {env s r now short long skipped} (leased : Leased env s)
    (round : Round env s r now short long skipped)
    (covered : Covered env s (.runOnce r now short long skipped)) :
    ∀ x ∈ s.runs, x.unfinished = true → x.task.id ∉ short ++ long := by
  intro x hx on chosen
  obtain ⟨_,positive,cover⟩ := covered
  obtain ⟨slower,kept⟩ := cover x hx on
  obtain ⟨t,ht,same,_⟩ := chosenRow round chosen
  have free : now ≤ s.now := round.2.2.1
  have picked := roundDue round leased.owned.wf.ids ht (same ▸ chosen)
  rcases leased.owned.row x hx on t ht same with gone | running
  · simp [gone] at picked
  · obtain ⟨m,l,touched,locked,newer⟩ := leased.touched x hx on t ht same running
    simp only [running,locked,Option.some.injEq] at picked
    obtain ⟨l',same',silent⟩ := (picked.resolve_left (by simp)).2
    have within : now ≤ m + (env.cfg r).stale := by
      rcases kept with ⟨beating,beaten⟩ | soon
      · have tick := leased.onTime x hx beating
        have own : x.beatAt = m := by simpa [Run.touched,beaten] using touched
        omega
      · exact soon m touched
    omega

theorem coveredFresh {env s a t} (leased : Leased env s) (covered : Covered env s a)
    (ok : step env s a = some t) : FreshClaims Run.unfinished s a := by
  have does := stepDoes ok
  cases does with
  | runOnce round => exact ⟨covered.1,leasedFresh leased round covered⟩
  | _ => trivial

theorem leasedAlone {env s a t} (leased : Leased env s) (covered : Covered env s a)
    (ok : step env s a = some t) : Alone s a := by
  have does := stepDoes ok
  cases does with
  | runOnce round => exact leasedFresh leased round covered
  | begin run waiting | unhandled run waiting =>
    intro y hy active same
    have on : y.unfinished = true := by
      cases phase : y.phase <;> simp [Run.unfinished,phase,Phase.active] at active ⊢
    obtain rfl := leased.owned.once hy run on (waitingUnfinished waiting) same
    rcases waiting with h | h <;> simp [Phase.active,h] at active
  | _ => trivial

theorem newTouched {s r now ids x} (new : NewRun s r now ids x) :
    x.phase = .waiting ∧ x.beaten = false ∧ x.beating = false ∧ x.touched = some now := by
  obtain ⟨t,_,shape⟩ := new.shape
  rw [shape]
  exact ⟨rfl,rfl,rfl,rfl⟩

theorem earlyStep {env s a t} (leased : Leased env s) (ok : step env s a = some t) :
    ∀ x ∈ t.runs, x.waits → x.beaten = false ∧ x.beating = false := by
  intro x' hx' phase
  rcases runsChange (stepDoes ok) leased.owned.wf.names x' hx' with ⟨x,hx,change⟩ | ⟨_,_,_,_,_,rfl,new⟩
  · have old := leased.early x hx
    cases change with
    | same | untracked | canceled | missed | expired => exact old phase
    | dispatched waiting => exact old (.inl waiting)
    | begun | unhandled | returned | finished => simp [Run.waits] at phase
    | beaten beating | lost beating =>
      have off := (old phase).2
      rw [beating] at off
      contradiction
    | quiet => exact ⟨(old phase).1,rfl⟩
  · have fresh := newTouched new
    exact ⟨fresh.2.1,fresh.2.2.1⟩

theorem changeTouched {env s a x x'} (leased : Leased env s) (hx : x ∈ s.runs)
    (change : RunChange env s a x x') :
    x'.touched = x.touched ∨ (a = .beat x.task.id x.claim true ∧ x'.touched = some s.now ∧
      ∃ t ∈ s.rows, t.id = x.task.id ∧ t.status = .running) := by
  cases change with
  | begun waiting =>
    have fresh := (leased.early x hx waiting).1
    exact .inl (by simp [Run.touched,fresh])
  | beaten beating row => exact .inr ⟨rfl,rfl,row⟩
  | _ => exact .inl rfl

theorem pastStep {env s a t} (leased : Leased env s) (ok : step env s a = some t) :
    ∀ x ∈ t.runs, ∀ m ∈ x.touched, m ≤ t.now := by
  intro x' hx' m touched
  have does := stepDoes ok
  have later : s.now ≤ t.now := by rcases nowStep does with same | ⟨d,_,same⟩ <;> omega
  rcases runsChange does leased.owned.wf.names x' hx' with ⟨x,hx,change⟩ | ⟨r,now,short,long,_,rfl,new⟩
  · rcases changeTouched leased hx change with same | ⟨_,same,_⟩
    · rw [same] at touched
      exact Int.le_trans (leased.past x hx m touched) later
    · rw [same] at touched
      cases Option.some.inj touched
      exact later
  · cases does with
    | runOnce round =>
      rw [(newTouched new).2.2.2] at touched
      cases Option.some.inj touched
      exact Int.le_trans round.2.2.1 later

theorem onTimeStep {env s a t} (leased : Leased env s) (punctual : Punctual env s a)
    (ok : step env s a = some t) : ∀ x ∈ t.runs, x.beating = true →
      t.now ≤ x.beatAt + max 0 (env.cfg x.replica).heartbeat := by
  intro x' hx' beating
  have does := stepDoes ok
  rcases runsChange does leased.owned.wf.names x' hx' with ⟨x,hx,change⟩ | ⟨_,_,_,_,_,rfl,new⟩
  · have old := leased.onTime x hx
    rcases nowStep does with same | ⟨d,rfl,same⟩
    · rw [same]
      cases change with
      | begun | beaten => dsimp only; omega
      | dispatched | unhandled | returned | finished => exact old beating
      | lost | quiet => contradiction
      | _ => exact old beating
    · have due := (punctual x hx).1
      rw [same]
      cases change with
      | same | untracked | canceled =>
        exact Int.le_trans (due beating) (Int.add_le_add_left (Int.le_max_right _ _) _)
  · rw [(newTouched new).2.2.1] at beating
    contradiction

theorem oldRow {env s a t} (leased : Leased env s) (covered : Covered env s a)
    (ok : step env s a = some t) {x x'} (hx : x ∈ s.runs) (change : RunChange env s a x x')
    (on : x'.unfinished = true) {y y'} (hy : y ∈ s.rows) (row : y.id = x.task.id)
    (next : RowChange env s a y y') (kept : x'.touched = x.touched) (running : y'.status = .running) :
    ∃ m l, x'.touched = some m ∧ y'.lockedAt = some l ∧ m ≤ l := by
  have live := changeUnfinished change on
  have old := leased.touched x hx live y hy row
  rw [kept]
  cases next with
  | same => exact old running
  | cancelled | aborted | unhandled => cases running
  | claimed chosen =>
    have fresh := coveredFresh leased covered ok
    exact absurd (row ▸ chosen) (fresh.2 x hx live)
  | beaten _ _ _ before =>
    obtain ⟨m,l,touched,_⟩ := old before
    exact ⟨m,s.now,touched,rfl,leased.past x hx m touched⟩
  | finished => exact absurd running (outcomeNotRunning _ _ _ _ _ _)

theorem touchedStep {env s a t} (leased : Leased env s) (covered : Covered env s a)
    (ok : step env s a = some t) : ∀ x ∈ t.runs, x.unfinished = true → ∀ y ∈ t.rows,
      y.id = x.task.id → y.status = .running →
      ∃ m l, x.touched = some m ∧ y.lockedAt = some l ∧ m ≤ l := by
  intro x' hx' on y' hy' row running
  have does := stepDoes ok
  rcases runsChange does leased.owned.wf.names x' hx' with ⟨x,hx,change⟩ | ⟨r,now,short,long,_,rfl,new⟩
  · rw [(changeSame change).2.1] at row
    rcases changeTouched leased hx change with kept | ⟨how,touched,found⟩
    · rcases rowsChange does leased.owned.wf.ids y' hy' with ⟨y,hy,next⟩ | ⟨_,_,_,_,rfl⟩
      · rw [(changeId next).1] at row
        exact oldRow leased covered ok hx change on hy row next kept running
      · cases running
    · -- The heartbeat of this very claim: the row it names is the one it has touched.
      cases does with
      | lost run beating gone =>
        obtain ⟨z,hz,same,still⟩ := found
        have named := (Action.beat.inj how).1
        exact absurd still (gone z hz (same.trans named.symm))
      | beaten run beating _ =>
        have named := (Action.beat.inj how).1
        obtain ⟨y,hy,⟨_,rfl⟩ | ⟨miss,rfl⟩⟩ := Table.memUpdate hy'
        · exact ⟨s.now,s.now,touched,rfl,Int.le_refl _⟩
        · simp [row,running,named] at miss
      | beatFails => cases (Action.beat.inj how).2.2
      | _ => cases how
  · cases does with
    | runOnce round =>
      rw [claimedRows] at hy'
      obtain ⟨y,hy,⟨_,rfl⟩ | ⟨miss,rfl⟩⟩ := Table.memUpdate hy'
      · exact ⟨now,now,(newTouched new).2.2.2,rfl,Int.le_refl _⟩
      · have hit := List.contains_iff_mem.mpr new.chosen
        rw [← row,miss] at hit
        contradiction

theorem leasedStep {env s a t} (leased : Leased env s)
    (sure : Punctual env s a ∧ Covered env s a) (ok : step env s a = some t) : Leased env t where
  owned := ownedStep leased.owned (coveredFresh leased sure.2 ok) ok
  early := earlyStep leased ok
  past := pastStep leased ok
  onTime := onTimeStep leased sure.1 ok
  touched := touchedStep leased sure.2 ok

theorem oneLiveClaim (env : Env) (as : List Action)
    (punctual : Along (step env) (Punctual env) State.init as)
    (covered : Along (step env) (Covered env) State.init as) :
    Along (step env) Alone State.init as :=
  alongKeeps (fun leased sure ok => leasedStep leased sure ok)
    (fun leased sure ok => leasedAlone leased sure.2 ok) (initLeased env) (alongAnd punctual covered)

def shared : List Action :=
  [.schedule "report" "a" 0,.schedule "report" "b" 5000,.runOnce 0 0 [1] [] [],.start 1 1 true,
    .tick 9000,.runOnce 1 9000 [2] [] [],.start 2 1 true,
    .handlerReturn 1 1 (.err "down".toUTF8),.beatExit 1 1,.outcome 1 1 true,
    .handlerReturn 2 1 .nil,.beatExit 2 1,.outcome 2 1 true,
    .tick 60000,.runOnce 1 69000 [1] [] [],.start 1 2 true,.tick 9000,
    .handlerReturn 1 2 .nil,.beatExit 1 2,.outcome 1 2 true]

theorem sharedAlone : (run (step (reports 0)) State.init shared).isSome ∧
    Along (step (reports 0)) Alone State.init shared :=
  ⟨by decide,oneLiveClaim (reports 0) shared (by decide) (by decide)⟩

/- Twelve rows in one batch, every handler done after nine seconds and every statement
succeeding: row 12 has waited 99 seconds when replica 1 takes it for abandoned and runs it. -/
def longBatch : List Action :=
  (List.range 12).map (fun _ => (.schedule "report" "a" 0 : Action)) ++
  ([.runOnce 0 0 [1,2,3,4,5,6,7,8,9,10,11,12] [] []] : List Action) ++
  [1,2,3,4,5,6,7,8,9,10,11].flatMap (fun id => ([.start id 1 true,.tick 9000,
    .handlerReturn id 1 .nil,.beatExit id 1,.outcome id 1 true] : List Action)) ++
  ([.start 12 1 true,.runOnce 1 99000 [12] [] [],.start 12 2 true] : List Action)

theorem reclaimedWaiting : ¬ ∀ env as, Along (step env) (Punctual env) State.init as →
    Along (step env) Alone State.init as := by
  intro alone
  have run := alone (reports 0) longBatch (by decide +kernel)
  revert run
  decide +kernel

end DevkitCommon.Delayx
