import DevkitCommon.Delayx.Steps

/-! Which claim a write belongs to. The outcome and the heartbeat are guarded by the
row's status alone, and two claims of one row share that status: what a superseded
claim can still write, and when nothing is superseded. -/
namespace DevkitCommon.Delayx
open Machine

def Run.unfinished (x : Run) : Bool := x.phase != .ended
def Run.holds (x : Run) : Bool := x.unfinished || x.beating

def Run.waits (x : Run) : Prop := x.phase = .waiting ∨ x.phase = .dispatched
instance (x : Run) : Decidable x.waits := by unfold Run.waits; infer_instance

theorem waitingUnfinished {x : Run} (waiting : x.waits) : x.unfinished = true := by
  rcases waiting with h | h <;> simp [Run.unfinished,h]

def Superseded (s : State) (a : Action) : Prop :=
  ∃ name ∈ actor a, name.2 < s.claims name.1
instance (s a) : Decidable (Superseded s a) := by unfold Superseded; infer_instance

def rowsAfter (env : Env) (s : State) (a : Action) : List Task :=
  ((step env s a).map State.rows).getD s.rows

def Fenced (env : Env) (s : State) (a : Action) : Prop :=
  Superseded s a → rowsAfter env s a = s.rows
instance (env s a) : Decidable (Fenced env s a) := by unfold Fenced; infer_instance

def writer (env : Env) (s : State) : Action → Option (Nat × Nat)
  | .outcome id claim true | .beat id claim true => some (id,claim)
  | .start id claim true => if unhandled env s id claim then some (id,claim) else none
  | _ => none

def arrives (env : Env) (s : State) (reachable : Bool) (x : Run) : Bool :=
  match x.phase with
  | .returned err cause => outcomeAccepted s x (outcomeOf env s x err cause) reachable
  | .waiting | .dispatched => (spec env x.replica x.task.kind).isNone &&
    accepted reachable (bookkeeping s.now) s.now (noHandlerFields x.task.kind).lastError
  | _ => false

def closes (env : Env) (s : State) : Action → List (Nat × Nat)
  | .outcome id claim reachable | .start id claim reachable =>
    (s.runs.filter (fun x => x.isAt id claim && arrives env s reachable x)).map Run.name
  | .abortUpdate name => (s.aborts.filter (fun c => c.name == name && !c.inTx)).flatMap
      (fun c => c.ids.map (fun id => (id,s.claims id)))
  | .commit name => (s.aborts.filter (fun c => c.name == name)).flatMap
      (fun c => c.ids.map (fun id => (id,s.claims id)))
  | _ => []

def fencedStep (env : Env) : State × List (Nat × Nat) → Action → Option (State × List (Nat × Nat)) :=
  recording (step env) (fun s a closed => closes env s a ++ closed)

def AfterCurrent (env : Env) (s : State × List (Nat × Nat)) (a : Action) : Prop :=
  ∀ name ∈ writer env s.1 a, name.2 < s.1.claims name.1 → (name.1,s.1.claims name.1) ∈ s.2
instance (env s a) : Decidable (AfterCurrent env s a) := by unfold AfterCurrent; infer_instance

def FreshClaims (p : Run → Bool) (s : State) : Action → Prop
  | .runOnce _ _ short long _ => (short ++ long).Nodup ∧
    ∀ x ∈ s.runs, p x = true → x.task.id ∉ short ++ long
  | _ => True
instance (p s a) : Decidable (FreshClaims p s a) := by unfold FreshClaims; induction a using Action.casesOn <;> infer_instance

theorem rowsAfterStep {env s a t} (ok : step env s a = some t) : rowsAfter env s a = t.rows := by
  simp [rowsAfter,ok]

theorem writerActs {env s a name} (writes : name ∈ writer env s a) : name ∈ actor a := by
  unfold writer at writes
  split at writes <;> try exact writes
  · split at writes
    · exact writes
    · cases writes
  · cases writes

theorem closedFences {env s a t} (left : ∀ name ∈ writer env s a, name.2 < s.claims name.1 →
    ∀ t ∈ s.rows, t.id = name.1 → t.status ≠ .running) (ok : step env s a = some t) : Fenced env s a := by
  rintro ⟨⟨id,claim⟩,acts,late⟩
  have missed {f : Task → Task} (writes : writer env s a = some (id,claim)) :
      Table.update (fun t => t.id == id && t.status == .running) f s.rows = s.rows := by
    refine Table.updateNone (fun t mem => ?_)
    by_cases same : t.id = id
    · simp [left (id,claim) writes late t mem same]
    · simp [same]
  rw [rowsAfterStep ok]
  have does := stepDoes ok
  cases does with
  | @unhandled x reachable run waiting missing =>
    cases Option.some.inj acts
    dsimp only
    split
    · rename_i written
      obtain rfl := acceptedReachable written
      have kindless : unhandled env s x.task.id x.claim = true :=
        List.any_eq_true.mpr ⟨x,run,by simp [Run.isAt,missing]⟩
      exact missed (by simp [writer,kindless])
    · rfl
  | beaten run beating row =>
    cases Option.some.inj acts
    exact missed rfl
  | outcome run back =>
    cases Option.some.inj acts
    dsimp only
    split
    · rename_i written
      obtain rfl := acceptedReachable written
      exact missed rfl
    · rfl
  | dispatch | begin | lost | beatFails | beatExit | deadline | handlerReturn => rfl
  | _ => cases acts

theorem actorHolds {env s a t id claim} (does : Does env s a t) (acts : actor a = some (id,claim)) :
    ∃ x ∈ s.runs, x.name = (id,claim) ∧ x.holds = true := by
  cases does with
  | dispatch run waiting | deadline run waiting | handlerReturn h run waiting | outcome run waiting =>
    cases Option.some.inj acts
    exact ⟨_,run,rfl,by simp [Run.holds,Run.unfinished,waiting]⟩
  | begin run waiting | unhandled run waiting =>
    cases Option.some.inj acts
    exact ⟨_,run,rfl,Bool.or_eq_true_iff.mpr (.inl (waitingUnfinished waiting))⟩
  | beaten run beating | lost run beating | beatFails run beating | beatExit run beating =>
    cases Option.some.inj acts
    exact ⟨_,run,rfl,by simp [Run.holds,beating]⟩
  | _ => cases acts

theorem changeWaits {env s a x x'} (change : RunChange env s a x x') (waits : x'.waits) : x.waits := by
  cases change with
  | dispatched waiting => exact .inl waiting
  | begun | unhandled | returned | finished => simp [Run.waits] at waits
  | _ => exact waits

theorem changeUnfinished {env s a x x'} (change : RunChange env s a x x')
    (on : x'.unfinished = true) : x.unfinished = true := by
  cases change with
  | begun waiting | unhandled waiting => exact waitingUnfinished waiting
  | dispatched phase | returned _ phase | finished phase => simp [Run.unfinished,phase]
  | _ => exact on

theorem changeHolds {env s a x x'} (change : RunChange env s a x x') (held : x'.holds = true) :
    x.holds = true := by
  rcases Bool.or_eq_true_iff.mp held with on | beating
  · simp [Run.holds,changeUnfinished change on]
  · cases change with
    | begun waiting => exact Bool.or_eq_true_iff.mpr (.inl (waitingUnfinished waiting))
    | lost | quiet => contradiction
    | _ => exact Bool.or_eq_true_iff.mpr (.inr beating)

theorem claimedOthers (r : Nat) (now : Int) {ids : List Nat} (s : State) {id : Nat} (other : id ∉ ids) :
    (ids.foldl (claimOne r now) s).claims id = s.claims id := by
  induction ids generalizing s with
  | nil => rfl
  | cons i rest ih =>
    obtain ⟨differs,later⟩ := not_or.mp (List.mem_cons.not.mp other)
    rw [List.foldl_cons,ih _ later]
    unfold claimOne
    split
    · rfl
    · exact Function.update_of_ne differs _ _

theorem claimedCurrent (r : Nat) (now : Int) {ids : List Nat} (once : ids.Nodup) (s : State) :
    ∀ n ∈ (ids.foldl (claimOne r now) s).runs, n ∈ s.runs ∨
      n.claim = (ids.foldl (claimOne r now) s).claims n.task.id := by
  induction ids generalizing s with
  | nil => exact fun n mem => .inl mem
  | cons id rest ih =>
    obtain ⟨notLater,once⟩ := List.nodup_cons.mp once
    intro n mem
    rw [List.foldl_cons] at mem ⊢
    rcases ih once _ n mem with old | new
    · simp only [claimOne] at old
      split at old
      · exact .inl old
      · rename_i t found
        have same : t.id = id := by simpa using List.find?_some found
        rcases List.mem_append.mp old with old | new
        · exact .inl old
        · obtain rfl := List.mem_singleton.mp new
          right
          have kept := claimedOthers r now (claimOne r now s id) notLater
          simp only [claimRow,same]
          rw [kept]
          simp [claimOne,found]
    · exact .inr new

def Held (p : Run → Bool) (s : State) : Prop :=
  ∀ x ∈ s.runs, p x = true → x.claim = s.claims x.task.id

theorem initHeld (p : Run → Bool) : Held p State.init := by simp [Held,State.init]

theorem heldStep {p : Run → Bool} {env s a t}
    (back : ∀ {x x'}, RunChange env s a x x' → p x' = true → p x = true)
    (wf : Wf s) (held : Held p s) (fresh : FreshClaims p s a) (ok : step env s a = some t) :
    Held p t := by
  have does := stepDoes ok
  rcases (countersStep does).2 with same | ⟨r,now,short,long,skipped,rfl⟩
  · intro x' hx' on
    rcases runsChange does wf.names x' hx' with ⟨x,hx,change⟩ | ⟨r,now,short,long,skipped,rfl,new⟩
    · obtain ⟨_,task,claim⟩ := changeSame change
      rw [claim,task,same]
      exact held x hx (back change on)
    · cases does
      have later := new.later
      have known := (claimedNames r now (short ++ long) wf.names wf.counted).2 x' hx'
      rw [same] at known
      omega
  · obtain ⟨once,free⟩ := fresh
    cases does
    intro n hn on
    rcases claimedCurrent r now once s n hn with old | new
    · rw [claimedOthers r now s (free n old on)]
      exact held n old on
    · exact new

theorem heldOnce {p : Run → Bool} {s : State} (wf : Wf s) (held : Held p s) {x y : Run}
    (hx : x ∈ s.runs) (hy : y ∈ s.runs) (px : p x = true) (py : p y = true)
    (row : x.task.id = y.task.id) : x = y := by
  have claims : x.claim = y.claim := by rw [held x hx px,held y hy py,row]
  exact Table.sameRow wf.names hx hy (Prod.ext row claims)

structure Owned (s : State) : Prop where
  wf : Wf s
  held : Held Run.unfinished s
  row : ∀ x ∈ s.runs, x.unfinished = true → ∀ t ∈ s.rows, t.id = x.task.id →
    t.status = .cancelled ∨ t.status = .running

theorem initOwned : Owned State.init := ⟨initWf,initHeld _,by simp [State.init]⟩

theorem Owned.once {s : State} (owned : Owned s) {x y : Run} (hx : x ∈ s.runs) (hy : y ∈ s.runs)
    (px : x.unfinished = true) (py : y.unfinished = true) (row : x.task.id = y.task.id) : x = y :=
  heldOnce owned.wf owned.held hx hy px py row

theorem ownedRow {env s a x x' y y'} (owned : Owned s) (hx : x ∈ s.runs)
    (change : RunChange env s a x x') (on : x'.unfinished = true) (hy : y ∈ s.rows)
    (row : y.id = x.task.id) (next : RowChange env s a y y') : y'.status = .cancelled ∨ y'.status = .running := by
  have live := changeUnfinished change on
  have old := owned.row x hx live y hy row
  cases next with
  | same => exact old
  | cancelled | aborted => exact .inl rfl
  | claimed => exact .inr rfl
  | beaten _ _ _ running => exact .inr running
  -- A claim that ends by this step is not the one that stays unfinished.
  | unhandled run waiting same running missing =>
    obtain rfl := owned.once run hx (waitingUnfinished waiting) live (same.symm.trans row)
    simp [Run.unfinished,startEnds change rfl missing] at on
  | finished run back same running written =>
    obtain rfl := owned.once run hx (by simp [Run.unfinished,back]) live (same.symm.trans row)
    simp [Run.unfinished,outcomeEnds change rfl] at on

theorem ownedStep {env s a t} (owned : Owned s) (fresh : FreshClaims Run.unfinished s a)
    (ok : step env s a = some t) : Owned t := by
  refine ⟨wfStep owned.wf ok,heldStep changeUnfinished owned.wf owned.held fresh ok,?_⟩
  intro x' hx' on y' hy' row
  have does := stepDoes ok
  rcases runsChange does owned.wf.names x' hx' with ⟨x,hx,change⟩ | ⟨r,now,short,long,_,rfl,new⟩
  · rw [(changeSame change).2.1] at row
    rcases rowsChange does owned.wf.ids y' hy' with ⟨y,hy,next⟩ | ⟨_,_,_,_,rfl⟩
    · exact ownedRow owned hx change on hy ((changeId next).1 ▸ row) next
    · have known := owned.wf.known x hx
      simp only at row
      omega
  · cases does with
    | runOnce round =>
      rw [claimedRows] at hy'
      obtain ⟨y,hy,⟨_,rfl⟩ | ⟨miss,rfl⟩⟩ := Table.memUpdate hy'
      · exact .inr rfl
      · have hit := List.contains_iff_mem.mpr new.chosen
        rw [← row,miss] at hit
        contradiction

structure Barred (s : State × List (Nat × Nat)) : Prop where
  wf : Wf s.1
  bound : ∀ n ∈ s.2, n.2 ≤ s.1.claims n.1
  left : ∀ n ∈ s.2, n.2 = s.1.claims n.1 → ∀ t ∈ s.1.rows, t.id = n.1 → t.status ≠ .running

theorem initBarred : Barred (State.init,[]) := ⟨initWf,by simp,by simp⟩

theorem claimedMore (r : Nat) (now : Int) (ids : List Nat) (s : State) (id : Nat) :
    s.claims id ≤ (ids.foldl (claimOne r now) s).claims id ∧
    (id ∈ ids → (∃ t ∈ s.rows, t.id = id) → s.claims id < (ids.foldl (claimOne r now) s).claims id) := by
  induction ids generalizing s with
  | nil => simp
  | cons i rest ih =>
    obtain ⟨more,again⟩ := ih (claimOne r now s i)
    have one : s.claims id ≤ (claimOne r now s i).claims id := by
      unfold claimOne
      split
      · exact Nat.le_refl _
      · simp only [Function.update_apply]
        split
        · rename_i same; rw [same]; omega
        · exact Nat.le_refl _
    rw [List.foldl_cons]
    refine ⟨one.trans more,fun mem row => ?_⟩
    rcases List.mem_cons.mp mem with rfl | later
    · obtain ⟨t,ht,same⟩ := row
      have counted : s.claims id < (claimOne r now s id).claims id := by
        unfold claimOne
        split
        · rename_i none
          simpa [same] using List.find?_eq_none.mp none t ht
        · simp
      omega
    · obtain ⟨t,ht,same⟩ := row
      have still : ∃ t ∈ (claimOne r now s i).rows, t.id = id := by
        rw [claimOneRows]
        cases hit : (t.id == i) with
        | true => exact ⟨_,Table.updateHit ht hit,same⟩
        | false => exact ⟨t,Table.updateMiss ht hit,same⟩
      have := again later still
      omega

theorem claimsGrow {env s a t} (does : Does env s a t) (id : Nat) : s.claims id ≤ t.claims id := by
  cases does with
  | runOnce round => exact (claimedMore _ _ _ s id).1
  | _ => exact Nat.le_refl _

theorem runningKept {env s a t x x'} (does : Does env s a t) (hx : x ∈ s.rows)
    (change : RowChange env s a x x') (current : t.claims x.id = s.claims x.id)
    (running : x'.status = .running) : x.status = .running := by
  cases change with
  | same => exact running
  | cancelled | aborted => cases running
  | @claimed r now _ _ _ _ chosen =>
    cases does
    have more := (claimedMore r now _ s x.id).2 chosen ⟨x,hx,rfl⟩
    exact absurd current (Nat.ne_of_gt more)
  | unhandled _ _ _ before | beaten _ _ _ before | finished _ _ _ before => exact before

theorem closesBound {env s a n} (wf : Wf s) (mem : n ∈ closes env s a) : n.2 ≤ s.claims n.1 := by
  have ofRun {p : Run → Bool} (mem : n ∈ (s.runs.filter p).map Run.name) : n.2 ≤ s.claims n.1 := by
    obtain ⟨x,hx,rfl⟩ := List.mem_map.mp mem
    exact wf.counted x (List.mem_filter.mp hx).1
  have ofCall {p : AbortCall → Bool} (mem : n ∈ (s.aborts.filter p).flatMap
      (fun c => c.ids.map (fun id => (id,s.claims id)))) : n.2 ≤ s.claims n.1 := by
    obtain ⟨c,_,inside⟩ := List.mem_flatMap.mp mem
    obtain ⟨id,_,rfl⟩ := List.mem_map.mp inside
    exact Nat.le_refl _
  cases a with
  | outcome | start => exact ofRun mem
  | abortUpdate | commit => exact ofCall mem
  | _ => cases mem

theorem writtenLeft {id : Nat} {f : Fields} {now : Int} {rows : List Task} (out : f.status ≠ .running) :
    ∀ t ∈ writeOutcome id f now rows, t.id = id → t.status ≠ .running := by
  intro t' mem same
  obtain ⟨t,_,⟨_,rfl⟩ | ⟨miss,rfl⟩⟩ := Table.memUpdate mem
  · exact out
  · simpa [same] using miss

theorem abortedLeft {ids : List Nat} {now : Int} {rows : List Task} {id : Nat} (inside : id ∈ ids) :
    ∀ t ∈ abortRows ids now rows, t.id = id → t.status ≠ .running := by
  intro t' mem same
  obtain ⟨t,_,⟨_,rfl⟩ | ⟨miss,rfl⟩⟩ := Table.memUpdate mem
  · simp [abortRow]
  · rintro running
    simp [same,inside,running,Status.isOpen] at miss

theorem closesLeaves {env s a t n} (wf : Wf s) (ok : step env s a = some t) (mem : n ∈ closes env s a) :
    ∀ x ∈ t.rows, x.id = n.1 → x.status ≠ .running := by
  have ofRun {x : Run} {p : Run → Bool} (run : x ∈ s.runs)
      (mem : n ∈ (s.runs.filter (fun y => y.isAt x.task.id x.claim && p y)).map Run.name) :
      n.1 = x.task.id ∧ p x = true := by
    obtain ⟨y,hy,rfl⟩ := List.mem_map.mp mem
    obtain ⟨hy,both⟩ := List.mem_filter.mp hy
    obtain ⟨at',holds⟩ := Bool.and_eq_true_iff.mp both
    obtain rfl := Table.sameRow wf.names hy run (isAtName.mp at')
    exact ⟨rfl,holds⟩
  have ofCall {c : AbortCall} {p : AbortCall → Bool} (call : c ∈ s.aborts)
      (mem : n ∈ (s.aborts.filter (fun d => d.name == c.name && p d)).flatMap
        (fun c => c.ids.map (fun id => (id,s.claims id)))) : n.1 ∈ c.ids ∧ p c = true := by
    obtain ⟨d,hd,inside⟩ := List.mem_flatMap.mp mem
    obtain ⟨hd,both⟩ := List.mem_filter.mp hd
    obtain ⟨same,holds⟩ := Bool.and_eq_true_iff.mp both
    obtain rfl := Table.sameRow wf.calls hd call (beq_iff_eq.mp same)
    obtain ⟨id,hid,rfl⟩ := List.mem_map.mp inside
    exact ⟨hid,holds⟩
  have does := stepDoes ok
  cases does with
  | outcome run back =>
    obtain ⟨same,arrived⟩ := ofRun run mem
    simp only [arrives,back] at arrived
    simp only [arrived,if_true]
    rw [same]
    exact writtenLeft (outcomeNotRunning _ _ _ _ _ _)
  | begin run waiting handler =>
    obtain ⟨_,arrived⟩ := ofRun run mem
    rcases waiting with h | h <;> simp [arrives,h,handler] at arrived
  | @unhandled x reachable run waiting missing =>
    obtain ⟨same,arrived⟩ := ofRun run mem
    have written : accepted reachable (bookkeeping s.now) s.now
        (noHandlerFields x.task.kind).lastError = true := by
      rcases waiting with h | h <;> simpa [arrives,h,missing] using arrived
    simp only [written,if_true]
    rw [same]
    exact writtenLeft (by simp [noHandlerFields])
  | abortOpens call reading tx =>
    obtain ⟨_,plain⟩ := ofCall call mem
    simp [tx] at plain
  | abortWrites call reading plain =>
    exact abortedLeft (ofCall call mem).1
  | commit call opened returned =>
    have inside := (ofCall (p := fun _ => true) call (by simpa [closes] using mem)).1
    exact abortedLeft inside
  | _ => cases mem

theorem barredStep {env s a t} (inv : Barred s) (ok : fencedStep env s a = some t) : Barred t := by
  obtain ⟨one,noted⟩ := recordingStep ok
  have does := stepDoes one
  refine ⟨wfStep inv.wf one,?_,?_⟩
  · intro n mem
    rw [noted] at mem
    refine le_trans ?_ (claimsGrow does n.1)
    rcases List.mem_append.mp mem with new | old
    · exact closesBound inv.wf new
    · exact inv.bound n old
  · intro n mem current x' hx' same running
    rw [noted] at mem
    rcases List.mem_append.mp mem with new | old
    · exact closesLeaves inv.wf one new x' hx' same running
    · have before := inv.bound n old
      have grow := claimsGrow does n.1
      rcases rowsChange does inv.wf.ids x' hx' with ⟨x,hx,change⟩ | ⟨_,_,_,_,rfl⟩
      · have id := (changeId change).1.symm.trans same
        have still : t.1.claims x.id = s.1.claims x.id := by rw [id]; omega
        exact inv.left n old (by omega) x hx id (runningKept does hx change still running)
      · cases running

theorem freshAfterCurrent {env as} (fresh : Along (step env) (FreshClaims Run.holds) State.init as) :
    Along (fencedStep env) (AfterCurrent env) (State.init,[]) as := by
  have keep : ∀ {s a t}, Wf s.1 ∧ Held Run.holds s.1 → FreshClaims Run.holds s.1 a →
      fencedStep env s a = some t → Wf t.1 ∧ Held Run.holds t.1 := by
    intro s a t ⟨wf,held⟩ fresh ok
    obtain ⟨one,_⟩ := recordingStep ok
    exact ⟨wfStep wf one,heldStep changeHolds wf held fresh one⟩
  refine alongKeeps keep ?_ ⟨initWf,initHeld _⟩ (alongRecording.mpr fresh)
  rintro s a t ⟨wf,held⟩ fresh ok ⟨id,claim⟩ writes late
  obtain ⟨one,_⟩ := recordingStep ok
  obtain ⟨x,hx,same,holds⟩ := actorHolds (stepDoes one) (writerActs writes)
  obtain ⟨rfl,rfl⟩ := Prod.mk.inj same
  have current := held x hx holds
  simp only at late
  omega

theorem outcomesFenced (env : Env) (as : List Action) :
    (Along (fencedStep env) (AfterCurrent env) (State.init,[]) as →
      Along (step env) (Fenced env) State.init as) ∧
    (Along (step env) (FreshClaims Run.holds) State.init as →
      Along (fencedStep env) (AfterCurrent env) (State.init,[]) as) := by
  refine ⟨fun after => ?_,freshAfterCurrent⟩
  have keeps := alongKeeps (q := fun s a => Fenced env s.1 a)
    (fun inv _ ok => barredStep inv ok) (fun {s a t} inv here ok => ?_) initBarred after
  · exact alongRecording.mp keeps
  · obtain ⟨one,_⟩ := recordingStep ok
    exact closedFences (fun name writes late => inv.left (name.1,s.1.claims name.1) (here name writes late) rfl) one

/- Row 2 waits in the batch of replica 0 until replica 1 reclaims it as stale, runs it and
writes done. Only then replica 0 reaches it and writes, beats and writes again under the
old claim. -/
def lateInBatch : List Action :=
  [.schedule "report" "a" 0,.schedule "report" "b" 0,.runOnce 0 0 [1,2] [] [],.start 1 1 true,
    .tick 30000,.beat 1 1 true,.tick 30000,.beat 1 1 true,.tick 30000,.beat 1 1 true,.tick 1000,
    .runOnce 1 91000 [2] [] [],.start 2 2 true,.handlerReturn 2 2 .nil,.beatExit 2 2,.outcome 2 2 true,
    .handlerReturn 1 1 .nil,.beatExit 1 1,.outcome 1 1 true,.start 2 1 true,.tick 5000,.beat 2 1 true,
    .handlerReturn 2 1 (.err "down".toUTF8),.outcome 2 1 true]

theorem lateFenced : (run (step (reports 120000)) State.init lateInBatch).isSome ∧
    Along (step (reports 120000)) (Fenced (reports 120000)) State.init lateInBatch :=
  ⟨by decide,(outcomesFenced (reports 120000) lateInBatch).1 (by decide)⟩

/- Replica 0 claims rows 1 and 2 at once. While the handler of row 1 takes 91 seconds
nothing touches row 2, so replica 1 reclaims it as stale and starts its handler; then
replica 0 reaches row 2 in its batch, runs it as well and writes done under the old claim. -/
def reclaimedInBatch : List Action :=
  [.schedule "report" "a" 0,.schedule "report" "b" 0,.runOnce 0 0 [1,2] [] [],.start 1 1 true,
    .tick 30000,.beat 1 1 true,.tick 30000,.beat 1 1 true,.tick 30000,.beat 1 1 true,.tick 1000,
    .runOnce 1 91000 [2] [] [],.start 2 2 true,
    .handlerReturn 1 1 .nil,.beatExit 1 1,.outcome 1 1 true,
    .start 2 1 true,.handlerReturn 2 1 .nil,.beatExit 2 1,.outcome 2 1 true]

theorem supersededWrites :
    ¬ ∀ env as, Along (step env) (Fenced env) State.init as := by
  intro fenced
  have run := fenced (reports 120000) reclaimedInBatch
  revert run
  decide

end DevkitCommon.Delayx
