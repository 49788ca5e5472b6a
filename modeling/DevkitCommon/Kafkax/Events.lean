import DevkitCommon.Kafkax.Delivery
import DevkitCommon.Kafkax.Relay

/-! The way of an event, from the transaction that wrote it to the handlers of every service that consumes its
topic: the relays of the outbox append to the partitions, and each service's group reads from there. -/
namespace DevkitCommon.Kafkax.Events
open Machine

/- One offset of a partition. value: the event id of its record (see Record); none: no record stands there.
row: the row of the outbox a relay has it from. -/
structure Entry where
  place : Place
  value : Option (Option String)
  row : Option Nat
  deriving DecidableEq, Repr

structure State where
  outbox : Outbox.State
  log : List Entry
  groups : String → Kafkax.State

def State.init (clock : Int) : State := ⟨.init clock,[],fun _ => .init clock⟩

def held (log : List Entry) (place : Place) : List Entry := log.filter (fun e => e.place = place)

def readable (log : List Entry) (place : Place) (offset : Nat) : Option (Option String) := do
  let e ← (held log place)[offset]?
  e.value

/- The partition a relay's record goes to is the producer's choice. write: any other producer. -/
inductive Action where
  | outbox (a : Outbox.Action) (partition : Nat)
  | write (place : Place) (value : Option (Option String))
  | group (service : String) (a : Kafkax.Action)
  deriving DecidableEq

def appended (partition : Nat) (p : Outbox.Publication) : Entry :=
  ⟨⟨p.record.topic,partition⟩,some (some p.record.value.id),some p.row⟩

def within (log : List Entry) (g : Kafkax.State) : Kafkax.Action → Bool
  | .poll c place n => ((g.consumers[c]?).bind (fun k => k.position place)).all
      (fun pos => decide (pos+n ≤ (held log place).length))
  | _ => true

section Steps
variable (db : Outbox.Database) (cfgs : String → Config)

def step (s : State) : Action → Option State
  | .outbox a partition => do
    let o ← Outbox.step db s.outbox a
    some {s with
      outbox := o
      log := s.log ++ (o.published.drop s.outbox.published.length).map (appended partition)}
  | .write place value => some {s with log := s.log ++ [⟨place,value,none⟩]}
  | .group service a =>
    if within s.log (s.groups service) a then do
      let g ← Kafkax.step ⟨cfgs service,readable s.log⟩ (s.groups service) a
      some {s with groups := Function.update s.groups service g}
    else none

inductive Does (s : State) : Action → State → Prop where
  | outbox {a : Outbox.Action} {o : Outbox.State} (partition : Nat) (does : Outbox.Does db s.outbox a o) :
      Does s (.outbox a partition) {s with
        outbox := o
        log := s.log ++ (o.published.drop s.outbox.published.length).map (appended partition)}
  | write (place : Place) (value : Option (Option String)) :
      Does s (.write place value) {s with log := s.log ++ [⟨place,value,none⟩]}
  | group {service : String} {a : Kafkax.Action} {g : Kafkax.State} (inside : within s.log (s.groups service) a = true)
      (one : Kafkax.step ⟨cfgs service,readable s.log⟩ (s.groups service) a = some g) :
      Does s (.group service a) {s with groups := Function.update s.groups service g}

end Steps

section Growth
variable {db : Outbox.Database} {cfgs : String → Config} {s t : State} {a : Action}

theorem stepDoes (one : step db cfgs s a = some t) : Does db cfgs s a t := by
  cases a with
  | outbox a partition =>
    simp only [step,bind,Option.bind_eq_some_iff] at one
    obtain ⟨o,inner,last⟩ := one
    cases Option.some.inj last
    exact .outbox partition (Outbox.stepDoes inner)
  | write place value =>
    cases Option.some.inj one
    exact .write place value
  | group service a =>
    simp only [step] at one
    split at one <;> try contradiction
    rename_i inside
    simp only [bind,Option.bind_eq_some_iff] at one
    obtain ⟨g,inner,last⟩ := one
    cases Option.some.inj last
    exact .group inside inner

theorem logGrows (does : Does db cfgs s a t) : s.log <+: t.log := by
  cases does with
  | outbox => exact List.prefix_append ..
  | write => exact List.prefix_append ..
  | group => exact List.prefix_refl _

theorem runGrows {as : List Action} (ok : run (step db cfgs) s as = some t) : s.log <+: t.log := by
  induction as generalizing s with
  | nil =>
    cases Option.some.inj ok
    exact List.prefix_refl _
  | cons a rest ih =>
    obtain ⟨u,one,more⟩ := runCons.mp ok
    exact (logGrows (stepDoes one)).trans (ih more)

variable {log more : List Entry} {place : Place} {offset : Nat}

theorem heldGrows (grows : log <+: more) : held log place <+: held more place := by
  obtain ⟨new,rfl⟩ := grows
  unfold held
  rw [List.filter_append]
  exact List.prefix_append ..

theorem entryStays (grows : log <+: more) {e : Entry} (found : (held log place)[offset]? = some e) :
    (held more place)[offset]? = some e := by
  have grown : held log place <+: held more place := heldGrows grows
  obtain ⟨new,same⟩ := grown
  rw [← same,List.getElem?_append_left (List.getElem?_eq_some_iff.mp found).1]
  exact found

theorem readableStays (grows : log <+: more) {id : Option String} (found : readable log place offset = some id) :
    readable more place offset = some id := by
  simp only [readable,bind,Option.bind_eq_some_iff] at found ⊢
  obtain ⟨e,stands,value⟩ := found
  exact ⟨e,entryStays grows stands,value⟩

theorem readableBelow (grows : log <+: more) (below : offset < (held log place).length) :
    readable more place offset = readable log place offset := by
  have found : (held log place)[offset]? = some (held log place)[offset] := List.getElem?_eq_getElem below
  simp only [readable,found,entryStays grows found]

theorem groupStays {cfg : Config} {g h : Kafkax.State} {a : Kafkax.Action} (grows : log <+: more)
    (inside : within log g a = true) (one : Kafkax.step ⟨cfg,readable log⟩ g a = some h) :
    Kafkax.step ⟨cfg,readable more⟩ g a = some h := by
  cases a with
  | poll c place n =>
    simp only [Kafkax.step,bind,Option.bind_eq_some_iff] at one ⊢
    obtain ⟨k,found,pos,position,last⟩ := one
    have short : pos+n ≤ (held log place).length := by
      simpa [within,found,position] using inside
    have same : fetch ⟨cfg,readable more⟩ place pos n = fetch ⟨cfg,readable log⟩ place pos n := by
      unfold fetch
      refine List.filterMap_congr (fun j mem => ?_)
      have before := List.mem_range.mp mem
      have below : pos+j < (held log place).length := by omega
      exact congrArg (Option.map _) (readableBelow grows below)
    exact ⟨k,found,pos,position,by rw [same]; exact last⟩
  | _ => exact one

end Growth

section Reads
variable {env : Env} {g h : Kafkax.State} {a : Kafkax.Action} {r : Record}

def Stands (env : Env) (r : Record) : Prop := env.log r.place r.offset = some r.id

structure Read (env : Env) (g : Kafkax.State) : Prop where
  todo : ∀ k ∈ g.consumers, ∀ r ∈ k.todo, Stands env r
  runs : ∀ run ∈ g.runs, Stands env run.record
  parked : ∀ r ∈ g.parked, Stands env r

theorem fetchStands {place : Place} {pos n : Nat} (mem : r ∈ fetch env place pos n) : Stands env r := by
  obtain ⟨j,-,found⟩ := List.mem_filterMap.mp mem
  obtain ⟨id,there,rfl⟩ := Option.map_eq_some_iff.mp found
  exact there

theorem todoSet {c : Nat} {k' : Consumer} (read : Read env g) (more : ∀ r ∈ k'.todo, Stands env r) :
    ∀ k ∈ g.consumers.set c k', ∀ r ∈ k.todo, Stands env r := by
  intro k mem
  rcases List.mem_or_eq_of_mem_set mem with old | rfl
  · exact read.todo k old
  · exact more

theorem todoKept {c : Nat} {k k' : Consumer} (read : Read env g) (found : g.consumers[c]? = some k)
    (same : k'.todo = k.todo) : ∀ x ∈ g.consumers.set c k', ∀ r ∈ x.todo, Stands env r := by
  refine todoSet read ?_
  rw [same]
  exact read.todo k (List.mem_of_getElem? found)

theorem runsConcat {new : Run} (read : Read env g) (stands : Stands env new.record) :
    ∀ run ∈ g.runs ++ [new], Stands env run.record := by
  intro run mem
  rcases List.mem_append.mp mem with old | last
  · exact read.runs run old
  · cases List.mem_singleton.mp last
    exact stands

theorem readStep (read : Read env g) (one : Kafkax.step env g a = some h) : Read env h := by
  have does := Kafkax.stepDoes one
  cases does with
  | tick => exact ⟨read.todo,read.runs,read.parked⟩
  | join topic =>
    refine ⟨fun k mem => ?_,read.runs,read.parked⟩
    rcases List.mem_append.mp mem with old | new
    · exact read.todo k old
    · cases List.mem_singleton.mp new
      exact fun _ inside => absurd inside List.not_mem_nil
  | assign found | revoke found | stop found =>
    exact ⟨todoKept read found rfl,read.runs,read.parked⟩
  | poll found position =>
    refine ⟨todoSet read (fun r inside => ?_),read.runs,read.parked⟩
    rcases List.mem_append.mp inside with old | new
    · exact read.todo _ (List.mem_of_getElem? found) r old
    · exact fetchStands new
  | @handle c k r rest found todo idle =>
    have all := read.todo k (List.mem_of_getElem? found)
    rw [todo] at all
    exact ⟨todoSet read (fun x inside => all x (List.mem_cons_of_mem _ inside)),
      runsConcat read (all r List.mem_cons_self),read.parked⟩
  | @replay r =>
    simp only [Kafkax.step] at one
    split at one <;> try contradiction
    rename_i parked
    exact ⟨read.todo,runsConcat read (read.parked r parked),read.parked⟩
  | @move a i run run' store parked found moves =>
    have stands := read.runs run (List.mem_of_getElem? found)
    have same := (movesKeep moves).2.1
    refine ⟨read.todo,fun x mem => ?_,fun r mem => ?_⟩
    · rcases List.mem_or_eq_of_mem_set mem with old | rfl
      · exact read.runs x old
      · rwa [same]
    · cases moves with
      | parked here =>
        rcases List.mem_append.mp mem with old | new
        · exact read.parked r old
        · cases List.mem_singleton.mp new
          exact stands
      | _ => exact read.parked r mem
  | commit found idle empty =>
    exact ⟨todoKept read found rfl,read.runs,read.parked⟩
  | crash found =>
    refine ⟨todoKept read found rfl,fun run mem => ?_,read.parked⟩
    obtain ⟨old,before,rfl⟩ := List.mem_map.mp mem
    split <;> exact read.runs old before

theorem readStays {cfg : Config} {log more : List Entry} (grows : log <+: more)
    (read : Read ⟨cfg,readable log⟩ g) : Read ⟨cfg,readable more⟩ g where
  todo k mem r inside := readableStays grows (read.todo k mem r inside)
  runs run mem := readableStays grows (read.runs run mem)
  parked r mem := readableStays grows (read.parked r mem)

end Reads

section Joints
variable {db : Outbox.Database} {cfgs : String → Config} {s t : State} {a : Action}

structure Joined (db : Outbox.Database) (cfgs : String → Config) (s : State) : Prop where
  sound : Outbox.Sound db s.outbox
  logged : ∀ p ∈ s.outbox.published, ∃ partition, appended partition p ∈ s.log
  relayed : ∀ e ∈ s.log, ∀ i, e.row = some i →
    ∃ p ∈ s.outbox.published, p.row = i ∧ p.record.topic = e.place.topic ∧ e.value = some (some p.record.value.id)
  read : ∀ service, Read ⟨cfgs service,readable s.log⟩ (s.groups service)

theorem publishedGrows {o u : Outbox.State} {a : Outbox.Action} (does : Outbox.Does db o a u) :
    ∃ new, u.published = o.published ++ new := by
  cases does with
  | produces found here head answered sent =>
    simp only [Outbox.State.setRound,sent]
    split
    · exact ⟨_,rfl⟩
    · exact ⟨[],(List.append_nil _).symm⟩
  | _ => exact ⟨[],(List.append_nil _).symm⟩

theorem joinedStep (joined : Joined db cfgs s) (does : Does db cfgs s a t) : Joined db cfgs t := by
  have grows := logGrows does
  cases does with
  | @outbox a o partition does =>
    obtain ⟨new,published⟩ := publishedGrows does
    have fresh : o.published.drop s.outbox.published.length = new := by rw [published,List.drop_left]
    refine ⟨Outbox.soundStep joined.sound does,fun p mem => ?_,fun e mem i row => ?_,
      fun service => readStays grows (joined.read service)⟩
    · simp only [fresh]
      rw [published] at mem
      rcases List.mem_append.mp mem with old | new'
      · obtain ⟨place,there⟩ := joined.logged p old
        exact ⟨place,List.mem_append_left _ there⟩
      · exact ⟨partition,List.mem_append_right _ (List.mem_map_of_mem new')⟩
    · simp only [fresh] at mem
      simp only [published]
      rcases List.mem_append.mp mem with old | new'
      · obtain ⟨p,inside,same⟩ := joined.relayed e old i row
        exact ⟨p,List.mem_append_left _ inside,same⟩
      · obtain ⟨p,inside,rfl⟩ := List.mem_map.mp new'
        exact ⟨p,List.mem_append_right _ inside,Option.some.inj row,rfl,rfl⟩
  | write place value =>
    refine ⟨joined.sound,fun p mem => ?_,fun e mem i row => ?_,fun service => readStays grows (joined.read service)⟩
    · obtain ⟨partition,there⟩ := joined.logged p mem
      exact ⟨partition,List.mem_append_left _ there⟩
    · rcases List.mem_append.mp mem with old | new
      · exact joined.relayed e old i row
      · cases List.mem_singleton.mp new
        contradiction
  | @group service a g inside one =>
    refine ⟨joined.sound,joined.logged,joined.relayed,fun name => ?_⟩
    by_cases same : name = service
    · subst same
      simp only [Function.update_self]
      exact readStep (joined.read name) one
    · simp only [Function.update_of_ne same]
      exact joined.read name

theorem initJoined (clock : Int) : Joined db cfgs (State.init clock) where
  sound := Outbox.reachedSound ⟨[],rfl⟩
  logged _ mem := absurd mem List.not_mem_nil
  relayed _ mem := absurd mem List.not_mem_nil
  read _ := ⟨fun _ mem => absurd mem List.not_mem_nil,fun _ mem => absurd mem List.not_mem_nil,
    fun _ mem => absurd mem List.not_mem_nil⟩

theorem reachedJoined {clock : Int} (reached : Reachable (step db cfgs) (State.init clock) s) :
    Joined db cfgs s :=
  reachableKeeps (fun joined one => joinedStep joined (stepDoes one)) (initJoined clock) reached

theorem publicationOf {p : Outbox.Publication} {x : Nat} {row : Outbox.OutboxRow} (joined : Joined db cfgs s)
    (mem : p ∈ s.outbox.published) (wrote : s.outbox.inserted[p.row]? = some (x,row)) :
    p.record.topic = row.topic ∧ p.record.value.id = row.eventID := by
  obtain ⟨now,⟨y,first,inserted,-,queued⟩,id,same⟩ := joined.sound.published p mem
  rw [id,wrote] at inserted
  cases Option.some.inj inserted
  rw [same]
  exact ⟨congrArg Outbox.Queued.topic queued.symm,congrArg Outbox.Queued.eventID queued.symm⟩

def Logged (s : State) (i : Nat) (row : Outbox.OutboxRow) (place : Place) (offset : Nat) : Prop :=
  place.topic = row.topic ∧ (held s.log place)[offset]? = some ⟨place,some (some row.eventID),some i⟩

theorem ackedLogged {i x : Nat} {row : Outbox.OutboxRow} (joined : Joined db cfgs s)
    (acked : Outbox.Acked s.outbox i) (wrote : s.outbox.inserted[i]? = some (x,row)) :
    ∃ place offset, Logged s i row place offset := by
  obtain ⟨p,mem,rfl,-⟩ := acked
  obtain ⟨topic,id⟩ := publicationOf joined mem wrote
  obtain ⟨partition,there⟩ := joined.logged p mem
  have inside : appended partition p ∈ held s.log ⟨p.record.topic,partition⟩ :=
    List.mem_filter.mpr ⟨there,decide_eq_true rfl⟩
  obtain ⟨offset,found⟩ := List.getElem?_of_mem inside
  refine ⟨⟨p.record.topic,partition⟩,offset,topic,?_⟩
  rw [found,appended,id]

def Sure (service : String) (s : State) : Action → Prop
  | .group name a => name = service → Kafkax.Sure (s.groups name) a
  | _ => True

instance (service : String) (s : State) : ∀ a, Decidable (Sure service s a)
  | .group name a => inferInstanceAs (Decidable (name = service → Kafkax.Sure (s.groups name) a))
  | .outbox _ _ => isTrue trivial
  | .write _ _ => isTrue trivial

theorem runDelivered {service : String} {log : List Entry} {as : List Action} (grows : t.log <+: log)
    (along : Along (step db cfgs) (Sure service) s as) (ran : run (step db cfgs) s as = some t)
    (inv : Delivered ⟨cfgs service,readable log⟩ (s.groups service)) :
    Delivered ⟨cfgs service,readable log⟩ (t.groups service) := by
  induction as generalizing s with
  | nil =>
    cases Option.some.inj ran
    exact inv
  | cons a rest ih =>
    obtain ⟨u,one,more⟩ := runCons.mp ran
    obtain ⟨here,later⟩ := (alongCons one).mp along
    refine ih later more ?_
    have does := stepDoes one
    have until' := (logGrows does).trans ((runGrows more).trans grows)
    cases does with
    | outbox => exact inv
    | write => exact inv
    | @group name a g inside inner =>
      by_cases same : name = service
      · subst same
        simp only [Function.update_self]
        exact deliveredStep inv (here rfl) (groupStays until' inside inner)
      · simp only [Function.update_of_ne (Ne.symm same)]
        exact inv

theorem eventsArrive {clock : Int} {service : String} {as : List Action} {i x : Nat} {row : Outbox.OutboxRow}
    (along : Along (step db cfgs) (Sure service) (State.init clock) as)
    (ran : run (step db cfgs) (State.init clock) as = some s)
    (wrote : s.outbox.inserted[i]? = some (x,row)) (committed : s.outbox.txs[x]? = some .committed) :
    ((∃ now ∈ s.outbox.rows, now.id = i ∧ now.sentAt = none) ∨ ∃ place offset, Logged s i row place offset) ∧
      ∀ place offset, Logged s i row place offset → offset < (s.groups service).committed place →
        Done (s.groups service) ⟨place,offset,some row.eventID⟩ := by
  have joined := reachedJoined ⟨as,ran⟩
  constructor
  · rcases joined.sound.kept i x row wrote committed with ⟨now,mem,id⟩ | ⟨old,mem,id⟩
    · by_cases unsent : now.sentAt = none
      · exact .inl ⟨now,mem,id,unsent⟩
      · have acked := joined.sound.sent now mem unsent
        rw [id] at acked
        exact .inr (ackedLogged joined acked wrote)
    · have acked := (joined.sound.deleted old mem).2
      rw [id] at acked
      exact .inr (ackedLogged joined acked wrote)
  · intro place offset logged before
    have delivered := runDelivered (List.prefix_refl _) along ran (initDelivered clock)
    refine delivered.committed place offset (some row.eventID) ?_ before
    simp only [readable,logged.2]
    rfl

def FromCommitted (s : State) (call : Run) : Prop :=
  ∃ e, (held s.log call.record.place)[call.record.offset]? = some e ∧ e.value = some call.record.id ∧
    ∀ i, e.row = some i → ∃ x row, s.outbox.inserted[i]? = some (x,row) ∧ s.outbox.txs[x]? = some .committed ∧
      row.topic = call.record.place.topic ∧ call.record.id = some row.eventID

theorem handledCommitted {clock : Int} {service : String} {call : Run}
    (reached : Reachable (step db cfgs) (State.init clock) s) (mem : call ∈ (s.groups service).runs) :
    FromCommitted s call := by
  have joined := reachedJoined reached
  have stands := (joined.read service).runs call mem
  simp only [Stands,readable,bind,Option.bind_eq_some_iff] at stands
  obtain ⟨e,found,value⟩ := stands
  refine ⟨e,found,value,fun i relayed => ?_⟩
  obtain ⟨inside,whose⟩ := List.mem_filter.mp (List.mem_of_getElem? found)
  obtain ⟨p,published,rfl,topic,id⟩ := joined.relayed e inside i relayed
  obtain ⟨now,⟨x,row,wrote,committed,-⟩,same,-⟩ := joined.sound.published p published
  rw [same] at wrote
  obtain ⟨topic',id'⟩ := publicationOf joined published wrote
  refine ⟨x,row,wrote,committed,?_,?_⟩
  · rw [← topic',topic,of_decide_eq_true whose]
  · rw [← id']
    exact Option.some.inj (value.symm.trans id)

end Joints

def debits : Place := ⟨"events.wallet",2⟩

def debited : List Action :=
  [.outbox .openTx 0,.outbox (.publishTx 0 "wallet" "e0" "events.wallet" "7" "debited" "{}" "" .ok) 0,
    .outbox .openTx 0,.outbox (.publishTx 1 "wallet" "e1" "events.wallet" "7" "debited" "{}" "" .ok) 0,
    .outbox (.rollbackTx 1) 0,.outbox (.commitTx 0 .ok) 0,
    .outbox (.relay "wallet" ⟨10,0⟩ .ok) 0,.outbox (.produce 0 .lost "timeout".toUTF8) 2,.outbox (.crash 0) 0,
    .group "bonus" (.join "events.wallet"),.group "bonus" (.assign 0 debits),.group "bonus" (.poll 0 debits 1),
    .group "bonus" (.handle 0),.group "bonus" (.seen 0 .ok),
    .outbox (.rollback 0) 0,.outbox (.relay "wallet" ⟨10,0⟩ .ok) 0,.outbox (.produce 1 .ok "".toUTF8) 2,
    .outbox (.update 1 .ok) 0,.outbox (.commit 1 .ok) 0,
    .group "bonus" (.attempt 0 true false),.group "bonus" (.commit 0 [debits]),.group "bonus" (.poll 0 debits 1),
    .group "bonus" (.handle 0),.group "bonus" (.seen 1 .ok),.group "bonus" (.commit 0 [debits])]

def bonusOnly : String → Config := fun _ => ⟨0,true,0⟩

theorem debitedRan : ∃ s x row, run (step Outbox.tenantDb bonusOnly) (State.init 0) debited = some s ∧
    (s.groups "bonus").committed debits = 2 ∧ s.outbox.inserted[0]? = some (x,row) ∧ row.eventID = "e0" ∧
    s.outbox.txs[x]? = some .committed ∧ Logged s 0 row debits 0 ∧ Logged s 0 row debits 1 := by
  have passing : (run (step Outbox.tenantDb bonusOnly) (State.init 0) debited).map (fun s =>
      ((s.groups "bonus").committed debits,s.outbox.inserted[0]?.map (fun e => (e.1,e.2.eventID,e.2.topic)))) =
      some (2,some (0,"e0","events.wallet")) := by decide
  have kept : (run (step Outbox.tenantDb bonusOnly) (State.init 0) debited).map (fun s => (s.outbox.txs[0]?,held s.log debits)) =
      some (some .committed,[⟨debits,some (some "e0"),some 0⟩,⟨debits,some (some "e0"),some 0⟩]) := by decide
  obtain ⟨s,ran,same⟩ := Option.map_eq_some_iff.mp passing
  rw [ran] at kept
  obtain ⟨passed,first⟩ := Prod.mk.inj same
  obtain ⟨committed,log⟩ := Prod.mk.inj (Option.some.inj kept)
  obtain ⟨⟨x,row⟩,wrote,parts⟩ := Option.map_eq_some_iff.mp first
  simp only [Prod.mk.injEq] at parts
  obtain ⟨rfl,id,topic⟩ := parts
  exact ⟨s,0,row,ran,passed,wrote,id,committed,⟨topic.symm,by rw [log,id]; rfl⟩,⟨topic.symm,by rw [log,id]; rfl⟩⟩

theorem debitedArrived : ∃ s, run (step Outbox.tenantDb bonusOnly) (State.init 0) debited = some s ∧
    (s.groups "bonus").committed debits = 2 ∧ Done (s.groups "bonus") ⟨debits,0,some "e0"⟩ ∧
    Done (s.groups "bonus") ⟨debits,1,some "e0"⟩ := by
  obtain ⟨s,x,row,ran,passed,wrote,id,committed,first,second⟩ := debitedRan
  have sure : Along (step Outbox.tenantDb bonusOnly) (Sure "bonus") (State.init 0) debited := by decide
  have arrive := (eventsArrive sure ran wrote committed).2
  rw [id] at arrive
  exact ⟨s,ran,passed,arrive debits 0 first (by rw [passed]; decide),arrive debits 1 second (by rw [passed]; decide)⟩

theorem debitedCommitted : ∃ s, run (step Outbox.tenantDb bonusOnly) (State.init 0) debited = some s ∧
    (s.groups "bonus").runs.length = 2 ∧ ∀ call ∈ (s.groups "bonus").runs, FromCommitted s call := by
  have facts : (run (step Outbox.tenantDb bonusOnly) (State.init 0) debited).map (fun s => (s.groups "bonus").runs.length) =
      some 2 := by decide
  obtain ⟨s,ran,two⟩ := Option.map_eq_some_iff.mp facts
  exact ⟨s,ran,two,fun call mem => handledCommitted ⟨debited,ran⟩ mem⟩
end DevkitCommon.Kafkax.Events
