import DevkitCommon.Delayx.Fencing

/-! Abort: the rows it takes are cancelled for good, and the runs in progress get their
context ended. A run that is claimed but not started is in neither place: it does not
read its row again before the handler. -/
namespace DevkitCommon.Delayx
open Machine

inductive CallChange (s t : State) : Action → AbortCall → AbortCall → Prop where
  | same (a c) : CallChange s t a c c
  | opens {c} (reading : c.stage = .reading) (rows : t.rows = s.rows) :
      CallChange s t (.abortUpdate c.name) c
        {c with stage := .opened, hit := openIds c.ids s.rows}
  | writes {c} (reading : c.stage = .reading) (rows : t.rows = abortRows c.ids s.now s.rows) :
      CallChange s t (.abortUpdate c.name) c
        {c with stage := .committed, hit := openIds c.ids s.rows}
  | cancels {c id rest} (todo : c.todo = id::rest) (past : c.stage ≠ .reading)
      (rows : t.rows = s.rows) :
      CallChange s t (.cancelLocal c.name) c
        {c with todo := rest, existed := taskIds c.kind c.key s.rows}
  | commits {c} (opened : c.stage = .opened) (rows : t.rows = abortRows c.ids s.now s.rows) :
      CallChange s t (.commit c.name) c
        {c with stage := .committed, existed := taskIds c.kind c.key s.rows}
  | rollsBack {c} : CallChange s t (.rollback c.name) c {c with stage := .rolledBack}

def NewCall (env : Env) (s t : State) (a : Action) (c' : AbortCall) : Prop :=
  ∃ name r kind key inTx, a = .abortRead name r kind key inTx ∧ t.rows = s.rows ∧
    c' = newCall env s name r kind key inTx

theorem setCallChange {s t a} {c c' d : AbortCall} (call : c ∈ s.aborts)
    (mem : c' ∈ setCall d s.aborts) (change : CallChange s t a c d) :
    ∃ c ∈ s.aborts, CallChange s t a c c' := by
  obtain ⟨x,hx,⟨_,rfl⟩ | ⟨_,rfl⟩⟩ := Table.memUpdate mem
  · exact ⟨c,call,change⟩
  · exact ⟨_,hx,.same _ _⟩

theorem callsChange {env s a t} (does : Does env s a t) :
    ∀ c' ∈ t.aborts, (∃ c ∈ s.aborts, CallChange s t a c c') ∨ NewCall env s t a c' := by
  intro c' mem
  cases does with
  | abortRead alive new =>
    rcases List.mem_append.mp mem with old | new
    · exact .inl ⟨c',old,.same _ _⟩
    · exact .inr ⟨_,_,_,_,_,rfl,rfl,List.mem_singleton.mp new⟩
  | abortOpens call reading tx => exact .inl (setCallChange call mem (.opens reading rfl))
  | abortWrites call reading plain => exact .inl (setCallChange call mem (.writes reading rfl))
  | cancelLocal call todo past => exact .inl (setCallChange call mem (.cancels todo past rfl))
  | commit call opened returned => exact .inl (setCallChange call mem (.commits opened rfl))
  | rollback call opened => exact .inl (setCallChange call mem .rollsBack)
  | runOnce round =>
    rw [(claimedRest _ _ _ s).2.2.2.2.1] at mem
    exact .inl ⟨c',mem,.same _ _⟩
  | crash r => exact .inl ⟨c',(List.mem_filter.mp mem).1,.same _ _⟩
  | _ => exact .inl ⟨c',mem,.same _ _⟩

def Idle (s : State) (r : Nat) (ids : List Nat) : Prop :=
  ∀ x ∈ s.runs, x.replica = r → x.waits → x.task.id ∉ ids
instance (s r ids) : Decidable (Idle s r ids) := by unfold Idle; infer_instance

def Ready (s : State) (c : AbortCall) : Prop :=
  Idle s c.replica (taskIds c.kind c.key s.rows) ∧
  ∀ t ∈ s.rows, t.kind = c.kind → t.key = c.key → t.status.isOpen = true → t.id ∈ c.ids
instance (s c) : Decidable (Ready s c) := by unfold Ready; infer_instance

def AbortClear (env : Env) (s : State) : Action → Prop
  | .abortRead name r kind key inTx =>
    (newCall env s name r kind key inTx).ids = [] → Ready s (newCall env s name r kind key inTx)
  | .cancelLocal name => ∀ c ∈ s.aborts, c.name = name → c.stage = .committed →
    c.todo.length = 1 → Ready s c
  | .commit name => ∀ c ∈ s.aborts, c.name = name → Ready s c
  | _ => True
instance (env s a) : Decidable (AbortClear env s a) := by
  unfold AbortClear; induction a using Action.casesOn <;> infer_instance

def AbortCall.over (c : AbortCall) : Prop := c.stage = .committed ∧ c.todo = []
instance (c : AbortCall) : Decidable c.over := by unfold AbortCall.over; infer_instance

def Silent (s : State) : Action → Prop
  | .start id claim _ => ∀ x ∈ s.runs, x.name = (id,claim) →
    ∀ c ∈ s.aborts, c.over → c.replica = x.replica → id ∉ c.existed
  | _ => True
instance (s a) : Decidable (Silent s a) := by unfold Silent; induction a using Action.casesOn <;> infer_instance

def StaysCancelled (s : State) : Prop :=
  ∀ c ∈ s.aborts, c.over → ∀ t ∈ s.rows, t.id ∈ c.hit → t.status = .cancelled
instance (s) : Decidable (StaysCancelled s) := by unfold StaysCancelled; infer_instance

def AbortHolds (s : State) (a : Action) : Prop := Silent s a ∧ StaysCancelled s
instance (s a) : Decidable (AbortHolds s a) := by unfold AbortHolds; infer_instance

structure Aborting (s : State) : Prop where
  wf : Wf s
  views : ∀ v ∈ s.views, ∀ t ∈ v.2, t.id < s.nextId
  known : ∀ c ∈ s.aborts, ∀ id, id ∈ c.ids ∨ id ∈ c.existed → id < s.nextId
  inside : ∀ c ∈ s.aborts, ∀ id ∈ c.hit, id ∈ c.ids
  opened : ∀ c ∈ s.aborts, c.stage = .opened → ∀ t ∈ s.rows, t.id ∈ c.hit →
    t.status.isOpen = true ∨ t.status = .cancelled
  hit : ∀ c ∈ s.aborts, c.stage = .committed → ∀ t ∈ s.rows, t.id ∈ c.hit → t.status = .cancelled
  ids : ∀ c ∈ s.aborts, c.stage = .committed → ∀ t ∈ s.rows, t.id ∈ c.ids → t.status.isOpen = false
  reading : ∀ c ∈ s.aborts, c.stage = .reading → c.todo ≠ []
  rows : ∀ c ∈ s.aborts, c.over → ∀ t ∈ s.rows, t.id ∈ c.existed → t.status.isOpen = false
  runs : ∀ c ∈ s.aborts, c.over → Idle s c.replica c.existed

theorem initAborting : Aborting State.init := by
  refine ⟨initWf,?_,?_,?_,?_,?_,?_,?_,?_,?_⟩ <;> simp [State.init]

theorem taskIdsMem {kind key : String} {rows : List Task} {id : Nat} :
    id ∈ taskIds kind key rows ↔ ∃ t ∈ rows, t.kind = kind ∧ t.key = key ∧ t.id = id := by
  simp [taskIds,and_assoc]

theorem openIdsMem {ids : List Nat} {rows : List Task} {id : Nat} :
    id ∈ openIds ids rows ↔ ∃ t ∈ rows, t.id ∈ ids ∧ t.status.isOpen = true ∧ t.id = id := by
  simp [openIds,and_assoc]

theorem newCallIds {env s name r kind key inTx} {id : Nat} :
    id ∈ (newCall env s name r kind key inTx).ids ↔
      ∃ t ∈ s.seen name inTx, named env kind key t = true ∧ t.status.isOpen = true ∧ t.id = id := by
  simp [newCall,and_assoc]

theorem seenFrom {s : State} {name : Nat} {inTx : Bool} {t : Task} (mem : t ∈ s.seen name inTx) :
    t ∈ s.rows ∨ ∃ v ∈ s.views, t ∈ v.2 := by
  unfold State.seen at mem
  split at mem
  · cases found : s.views.find? (fun v => v.1 == name) with
    | none => exact .inl (by simpa [found] using mem)
    | some v => exact .inr ⟨v,List.mem_of_find?_eq_some found,by simpa [found] using mem⟩
  · exact .inl mem

theorem newCallNone {env s name r kind key inTx}
    (committed : (newCall env s name r kind key inTx).stage = .committed) :
    (newCall env s name r kind key inTx).ids = [] := by
  simp only [newCall] at committed ⊢
  split at committed
  · rename_i none
    exact List.isEmpty_iff.mp none
  · contradiction

theorem abortedRow {ids : List Nat} {now : Int} {rows : List Task} {x'}
    (mem : x' ∈ abortRows ids now rows) (inside : x'.id ∈ ids) :
    x'.status = .cancelled ∨ (x' ∈ rows ∧ x'.status.isOpen = false) := by
  obtain ⟨x,hx,⟨_,rfl⟩ | ⟨miss,rfl⟩⟩ := Table.memUpdate mem
  · exact .inl rfl
  · have final : x'.status.isOpen = false := by
      cases isOpen : x'.status.isOpen with
      | false => rfl
      | true => simp [inside,isOpen] at miss
    exact .inr ⟨hx,final⟩

theorem abortedHit {ids : List Nat} {now : Int} {rows : List Task} {x'}
    (mem : x' ∈ abortRows ids now rows) (inside : x'.id ∈ ids)
    (taken : x' ∈ rows → x'.status.isOpen = true ∨ x'.status = .cancelled) :
    x'.status = .cancelled := by
  rcases abortedRow mem inside with gone | ⟨old,final⟩
  · exact gone
  · exact (taken old).resolve_left (by simp [final])

theorem knownStep {env s a t} (inv : Aborting s) (ok : step env s a = some t) :
    ∀ c ∈ t.aborts, ∀ id, id ∈ c.ids ∨ id ∈ c.existed → id < t.nextId := by
  intro c' hc' id mem
  have does := stepDoes ok
  have more := (countersStep does).1
  have fromRow {t : Task} (mem : t ∈ s.rows) (same : t.id = id) : id < s.nextId :=
    same ▸ inv.wf.fresh t mem
  refine Nat.lt_of_lt_of_le ?_ more
  rcases callsChange does c' hc' with ⟨c,hc,change⟩ | ⟨_,_,_,_,_,rfl,_,rfl⟩
  · cases change with
    | same | opens | writes | rollsBack => exact inv.known _ hc id mem
    | cancels | commits =>
      rcases mem with ids | existed
      · exact inv.known _ hc id (.inl ids)
      · obtain ⟨t,ht,_,_,same⟩ := taskIdsMem.mp existed
        exact fromRow ht same
  · rcases mem with ids | existed
    · obtain ⟨t,ht,_,_,same⟩ := newCallIds.mp ids
      rcases seenFrom ht with now | ⟨v,hv,old⟩
      · exact fromRow now same
      · exact same ▸ inv.views v hv t old
    · obtain ⟨t,ht,_,_,same⟩ := taskIdsMem.mp existed
      exact fromRow ht same

theorem viewsStep {env s a t} (inv : Aborting s) (ok : step env s a = some t) :
    ∀ v ∈ t.views, ∀ x ∈ v.2, x.id < t.nextId := by
  have does := stepDoes ok
  intro v hv x hx
  refine Nat.lt_of_lt_of_le ?_ (countersStep does).1
  cases does with
  | view new =>
    rcases List.mem_append.mp hv with old | taken
    · exact inv.views v old x hx
    · obtain rfl := List.mem_singleton.mp taken
      exact inv.wf.fresh x hx
  | runOnce round =>
    rw [(claimedRest _ _ _ s).2.2.2.2.2.2] at hv
    exact inv.views v hv x hx
  | _ => exact inv.views v hv x hx

theorem insideStep {env s a t} (inv : Aborting s) (ok : step env s a = some t) :
    ∀ c ∈ t.aborts, ∀ id ∈ c.hit, id ∈ c.ids := by
  intro c' hc' id hit
  rcases callsChange (stepDoes ok) c' hc' with ⟨c,hc,change⟩ | ⟨_,_,_,_,_,rfl,_,rfl⟩
  · cases change with
    | opens | writes =>
      obtain ⟨t,_,inside,_,rfl⟩ := openIdsMem.mp hit
      exact inside
    | _ => exact inv.inside _ hc id hit
  · simp [newCall] at hit

theorem lockedRow {env s a t} (inv : Aborting s) (ok : step env s a = some t) {c} (hc : c ∈ s.aborts)
    (opened : c.stage = .opened) {x x'} (hx : x ∈ s.rows) (hit : x.id ∈ c.hit)
    (change : RowChange env s a x x') : x'.status.isOpen = true ∨ x'.status = .cancelled := by
  have old := inv.opened c hc opened x hx hit
  cases change with
  | same => exact old
  | cancelled | aborted => exact .inr rfl
  | claimed | unhandled => exact .inl rfl
  | beaten _ _ _ running => exact .inl (by simp [beatRow,running,Status.isOpen])
  | finished _ _ row =>
    have free := (stepPerforms ok).2 x.id (by simp [touches,row])
    have locked : s.locked x.id = true :=
      List.any_eq_true.mpr ⟨c,hc,by simp [opened,inv.inside c hc x.id hit]⟩
    rw [locked] at free
    contradiction

theorem openedStep {env s a t} (inv : Aborting s) (ok : step env s a = some t) :
    ∀ c ∈ t.aborts, c.stage = .opened → ∀ x ∈ t.rows, x.id ∈ c.hit →
      x.status.isOpen = true ∨ x.status = .cancelled := by
  intro c' hc' opened x' hx' hit
  have does := stepDoes ok
  have kept {c} (hc : c ∈ s.aborts) (stage : c.stage = .opened) (mine : x'.id ∈ c.hit) :
      x'.status.isOpen = true ∨ x'.status = .cancelled := by
    have below := inv.known c hc x'.id (.inl (inv.inside c hc x'.id mine))
    rcases rowsChange does inv.wf.ids x' hx' with ⟨x,hx,change⟩ | ⟨_,_,_,_,rfl⟩
    · rw [(changeId change).1] at mine
      exact lockedRow inv ok hc stage hx mine change
    · exact absurd below (Nat.lt_irrefl _)
  rcases callsChange does c' hc' with ⟨c,hc,change⟩ | ⟨_,_,_,_,_,rfl,_,rfl⟩
  · cases change with
    | same => exact kept hc opened hit
    | cancels => exact kept hc opened hit
    | opens reading rows =>
      obtain ⟨z,hz,_,isOpen,same⟩ := openIdsMem.mp hit
      rw [rows] at hx'
      obtain rfl := Table.sameRow inv.wf.ids hz hx' same
      exact .inl isOpen
    | writes | commits | rollsBack => cases opened
  · simp [newCall] at hit

theorem hitStep {env s a t} (inv : Aborting s) (ok : step env s a = some t) :
    ∀ c ∈ t.aborts, c.stage = .committed → ∀ x ∈ t.rows, x.id ∈ c.hit → x.status = .cancelled := by
  intro c' hc' committed x' hx' hit
  have does := stepDoes ok
  have kept {c} (hc : c ∈ s.aborts) (stage : c.stage = .committed) (mine : x'.id ∈ c.hit) :
      x'.status = .cancelled := by
    have below := inv.known c hc x'.id (.inl (inv.inside c hc x'.id mine))
    have old : x' ∈ s.rows := finalKept inv.wf ok hx' below (fun x hx same => by
      rw [inv.hit c hc stage x hx (same ▸ mine)]; rfl)
    exact inv.hit c hc stage x' old mine
  rcases callsChange does c' hc' with ⟨c,hc,change⟩ | ⟨_,_,_,_,_,rfl,_,rfl⟩
  · cases change with
    | same => exact kept hc committed hit
    | cancels => exact kept hc committed hit
    | writes reading rows =>
      obtain ⟨z,hz,inside,isOpen,same⟩ := openIdsMem.mp hit
      rw [rows] at hx'
      refine abortedHit hx' (same ▸ inside) (fun old => ?_)
      obtain rfl := Table.sameRow inv.wf.ids hz old same
      exact .inl isOpen
    | commits opened rows =>
      rw [rows] at hx'
      exact abortedHit hx' (inv.inside c hc _ hit) (fun old => inv.opened c hc opened x' old hit)
    | opens | rollsBack => cases committed
  · simp [newCall] at hit

theorem takenStep {env s a t} (inv : Aborting s) (ok : step env s a = some t) :
    ∀ c ∈ t.aborts, c.stage = .committed → ∀ x ∈ t.rows, x.id ∈ c.ids → x.status.isOpen = false := by
  intro c' hc' committed x' hx' mine
  have does := stepDoes ok
  have kept {c} (hc : c ∈ s.aborts) (stage : c.stage = .committed) (mine : x'.id ∈ c.ids) :
      x'.status.isOpen = false := by
    have below := inv.known c hc x'.id (.inl mine)
    have old : x' ∈ s.rows := finalKept inv.wf ok hx' below (fun x hx same =>
      inv.ids c hc stage x hx (same ▸ mine))
    exact inv.ids c hc stage x' old mine
  have taken {c : AbortCall} (rows : t.rows = abortRows c.ids s.now s.rows) (mine : x'.id ∈ c.ids) :
      x'.status.isOpen = false := by
    rw [rows] at hx'
    rcases abortedRow hx' mine with gone | ⟨_,final⟩
    · rw [gone]; rfl
    · exact final
  rcases callsChange does c' hc' with ⟨c,hc,change⟩ | ⟨_,_,_,_,_,rfl,_,rfl⟩
  · cases change with
    | same => exact kept hc committed mine
    | cancels => exact kept hc committed mine
    | writes _ rows | commits _ rows => exact taken rows mine
    | opens | rollsBack => cases committed
  · rw [newCallNone committed] at mine
    contradiction

theorem readingStep {env s a t} (inv : Aborting s) (ok : step env s a = some t) :
    ∀ c ∈ t.aborts, c.stage = .reading → c.todo ≠ [] := by
  intro c' hc' reading
  rcases callsChange (stepDoes ok) c' hc' with ⟨c,hc,change⟩ | ⟨_,_,_,_,_,rfl,_,rfl⟩
  · cases change with
    | same => exact inv.reading c' hc reading
    | cancels _ past => exact absurd reading past
    | opens | writes | commits | rollsBack => cases reading
  · intro none
    simp only [newCall] at reading none
    rw [none] at reading
    contradiction

theorem idleStep {env s a t r E} (wf : Wf s) (ok : step env s a = some t) (idle : Idle s r E)
    (final : ∀ q now short long skipped, a = .runOnce q now short long skipped →
      ∀ x ∈ s.rows, x.id ∈ E → x.status.isOpen = false) : Idle t r E := by
  intro x' hx' mine waits inside
  have does := stepDoes ok
  rcases runsChange does wf.names x' hx' with ⟨x,hx,change⟩ | ⟨q,now,short,long,skipped,rfl,new⟩
  · obtain ⟨replica,task,_⟩ := changeSame change
    rw [task] at inside
    exact idle x hx (replica ▸ mine) (changeWaits change waits) inside
  · cases does with
    | runOnce round =>
      obtain ⟨y,hy,same,_⟩ := chosenRow round new.chosen
      have closed := final _ _ _ _ _ rfl y hy (same ▸ inside)
      rcases roundDue round wf.ids hy (same ▸ new.chosen) with ⟨status,_⟩ | ⟨status,_⟩ <;>
        simp [status,Status.isOpen] at closed

theorem readyFinal {s c} (inv : Aborting s) (hc : c ∈ s.aborts) (committed : c.stage = .committed)
    (ready : Ready s c) : ∀ x ∈ s.rows, x.id ∈ taskIds c.kind c.key s.rows →
      x.status.isOpen = false := by
  intro x hx existed
  obtain ⟨y,hy,kind,key,same⟩ := taskIdsMem.mp existed
  obtain rfl := Table.sameRow inv.wf.ids hy hx same
  cases isOpen : y.status.isOpen with
  | false => rfl
  | true =>
    have closed := inv.ids c hc committed y hy (ready.2 y hy kind key isOpen)
    rw [isOpen] at closed
    contradiction

theorem committedFinal {s c} (wf : Wf s) (ready : Ready s c) :
    ∀ x ∈ abortRows c.ids s.now s.rows, x.id ∈ taskIds c.kind c.key s.rows →
      x.status.isOpen = false := by
  intro x hx existed
  obtain ⟨z,hz,⟨_,rfl⟩ | ⟨miss,rfl⟩⟩ := Table.memUpdate hx
  · rfl
  · obtain ⟨y,hy,kind,key,same⟩ := taskIdsMem.mp existed
    obtain rfl := Table.sameRow wf.ids hy hz same
    cases isOpen : y.status.isOpen with
    | false => rfl
    | true => simp [ready.2 y hy kind key isOpen,isOpen] at miss

theorem readFinal {s c} (wf : Wf s) (none : c.ids = []) (ready : Ready s c) :
    ∀ x ∈ s.rows, x.id ∈ taskIds c.kind c.key s.rows → x.status.isOpen = false := by
  intro x hx existed
  obtain ⟨y,hy,kind,key,same⟩ := taskIdsMem.mp existed
  obtain rfl := Table.sameRow wf.ids hy hx same
  cases isOpen : y.status.isOpen with
  | false => rfl
  | true =>
    have read := ready.2 y hy kind key isOpen
    rw [none] at read
    contradiction

theorem overStep {env s a t} (inv : Aborting s) (clear : AbortClear env s a)
    (ok : step env s a = some t) : ∀ c ∈ t.aborts, c.over →
      (∀ x ∈ t.rows, x.id ∈ c.existed → x.status.isOpen = false) ∧ Idle t c.replica c.existed := by
  intro c' hc' isOver
  have does := stepDoes ok
  rcases callsChange does c' hc' with ⟨c,hc,change⟩ | ⟨_,_,_,_,_,rfl,rows,rfl⟩
  · cases change with
    | same =>
      refine ⟨fun x' hx' existed => ?_,idleStep inv.wf ok (inv.runs c' hc isOver)
        (fun _ _ _ _ _ _ => inv.rows c' hc isOver)⟩
      have below := inv.known c' hc x'.id (.inr existed)
      have old := finalKept inv.wf ok hx' below (fun x hx same =>
        inv.rows c' hc isOver x hx (same ▸ existed))
      exact inv.rows c' hc isOver x' old existed
    | cancels todo past rows =>
      have last := congrArg List.length (show _ = [] from isOver.2)
      have one : c.todo.length = 1 := by rw [todo]; simpa using last
      have ready := clear c hc rfl isOver.1 one
      rw [rows]
      exact ⟨readyFinal inv hc isOver.1 ready,idleStep inv.wf ok ready.1 (by simp)⟩
    | writes reading => exact absurd isOver.2 (inv.reading c hc reading)
    | commits opened rows =>
      have ready := clear c hc rfl
      rw [rows]
      exact ⟨committedFinal inv.wf ready,idleStep inv.wf ok ready.1 (by simp)⟩
    | opens | rollsBack => cases isOver.1
  · have none := newCallNone isOver.1
    have ready := clear none
    rw [rows]
    exact ⟨readFinal inv.wf none ready,idleStep inv.wf ok ready.1 (by simp)⟩

theorem abortingStep {env s a t} (inv : Aborting s) (clear : AbortClear env s a)
    (ok : step env s a = some t) : Aborting t where
  wf := wfStep inv.wf ok
  views := viewsStep inv ok
  known := knownStep inv ok
  inside := insideStep inv ok
  opened := openedStep inv ok
  hit := hitStep inv ok
  ids := takenStep inv ok
  reading := readingStep inv ok
  rows := fun c hc isOver => (overStep inv clear ok c hc isOver).1
  runs := fun c hc isOver => (overStep inv clear ok c hc isOver).2

theorem abortingHolds {env s a t} (inv : Aborting s) (ok : step env s a = some t) :
    AbortHolds s a := by
  refine ⟨?_,fun c hc isOver => inv.hit c hc isOver.1⟩
  have does := stepDoes ok
  cases does with
  | begin run waiting | unhandled run waiting =>
    intro y hy same c hc isOver here
    obtain rfl := Table.sameRow inv.wf.names hy run same
    exact inv.runs c hc isOver y run here.symm waiting
  | _ => trivial

theorem abortSilences (env : Env) (as : List Action)
    (clear : Along (step env) (AbortClear env) State.init as) :
    Along (step env) AbortHolds State.init as :=
  alongKeeps (fun inv here ok => abortingStep inv here ok) (fun inv _ ok => abortingHolds inv ok)
    initAborting clear

def abortedRuns : List Action :=
  [.schedule "report" "a" 0,.schedule "report" "a" 5000,.view 7,.schedule "report" "b" 5000,
    .runOnce 0 0 [1] [] [],.start 1 1 true,.tick 5000,.runOnce 1 5000 [2,3] [] [],.start 2 1 true,
    .abortRead 7 0 "report" "a" true,.abortUpdate 7,.cancelLocal 7,.cancelLocal 7,.commit 7,
    .handlerReturn 1 1 (.err "stopped".toUTF8),.beatExit 1 1,.outcome 1 1 true,
    .abortRead 8 0 "report" "b" false,.abortUpdate 8,.cancelLocal 8,
    .beat 2 1 true,.handlerReturn 2 1 .nil,.outcome 2 1 true,.start 3 1 true]

theorem abortedRunsSilent : (run (step (reports 0)) State.init abortedRuns).isSome ∧
    Along (step (reports 0)) AbortHolds State.init abortedRuns :=
  ⟨by decide,abortSilences (reports 0) abortedRuns (by decide)⟩

/- Row 2 waits in the batch behind row 1 when its Abort commits and returns; its handler
begins all the same. -/
def abortedInBatch : List Action :=
  [.schedule "report" "a" 0,.schedule "report" "b" 0,.runOnce 0 0 [1,2] [] [],.start 1 1 true,
    .abortRead 7 0 "report" "b" false,.abortUpdate 7,.cancelLocal 7,
    .handlerReturn 1 1 .nil,.beatExit 1 1,.outcome 1 1 true,.start 2 1 true]

theorem startsAborted : ¬ ∀ env as, Along (step env) AbortHolds State.init as := by
  intro holds
  have run := holds (reports 0) abortedInBatch
  revert run
  decide

end DevkitCommon.Delayx
