import DevkitCommon.Kafkax.Consumer
import Mathlib.Data.List.Basic

/-! At least once. A record leaves the consumer's hands when its process call ends, and
the commit passes it at the end of the batch; the call may end because the dedupe key was
found, and the key says only that some call has begun. -/
namespace DevkitCommon.Kafkax
open Machine Redis

/- A handler run for the record's event id returned nil. An empty id is no event id: there
the run has to be the record's own. -/
def HandledBy (r : Record) (run : Run) : Prop :=
  run.point = .ended .handled ∧ run.record.place.topic = r.place.topic ∧ run.record.id = r.id ∧
    (r.id = some "" → run.record = r)

def Done (s : State) (r : Record) : Prop := r ∈ s.parked ∨ ∃ run ∈ s.runs, HandledBy r run

def AtLeastOnce (env : Env) (s : State) : Prop :=
  ∀ place offset id, env.log place offset = some id → offset < s.committed place →
    Done s ⟨place,offset,id⟩

def State.live (s : State) (run : Run) : Bool := run.owner.any s.ctxLive

def State.settled (s : State) (j : Nat) : Bool :=
  (s.runs[j]?).any (fun setter => setter.point = .ended .handled)

def sure (s : State) : Action → Bool
  | .seen i .ok => (s.runs[i]?).all (fun run => !s.live run || run.record ∈ s.parked ||
      match run.point with
      | .seen id => (get s.dedupe s.clock (run.record.place.topic,id)).all s.settled
      | _ => true)
  | .park i .failed => (s.runs[i]?).all (fun run => !s.live run || run.record ∈ s.parked)
  | _ => true

def Sure (s : State) (a : Action) : Prop := sure s a = true
instance (s : State) (a : Action) : Decidable (Sure s a) := by unfold Sure; infer_instance

section Moves
variable (env : Env) (s : State)

inductive Moves (i : Nat) (run : Run) : Action → Run → Store Key Nat → List Record → Prop where
  | duplicate {id j} (here : run.point = .seen id)
      (taken : get s.dedupe s.clock (run.record.place.topic,id) = some j) :
      Moves i run (.seen i .ok) {run with point := .ended .duplicate} s.dedupe s.parked
  | sets {reply id claimed e} (here : run.point = .seen id) (mine : e.value = i)
      (knows : reply ≠ .lost → claimed = true) :
      Moves i run (.seen i reply) {run with point := .attempt claimed 1}
        (Function.update s.dedupe (run.record.place.topic,id) (some e)) s.parked
  | passes {reply id} (here : run.point = .seen id) :
      Moves i run (.seen i reply) {run with point := .attempt false 1} s.dedupe s.parked
  | handled {claimed n ctxDone} (here : run.point = .attempt claimed n) :
      Moves i run (.attempt i true ctxDone) {run with point := .ended .handled} s.dedupe s.parked
  | fails {claimed n ctxDone p} (here : run.point = .attempt claimed n) (goes : p.running = true)
      (not : ∀ id, p ≠ .seen id) (claims : claimed = true → p.working = true) :
      Moves i run (.attempt i false ctxDone) {run with point := p} s.dedupe s.parked
  | forgotten {reply key} (here : run.point = .forget) (whose : run.key = some key) :
      Moves i run (.forget i reply) {run with point := .judge} (del s.dedupe key) s.parked
  | kept {reply} (here : run.point = .forget) (undone : reply.ran = false) :
      Moves i run (.forget i reply) {run with point := .judge} s.dedupe s.parked
  | tool (here : run.point = .judge) (owner : run.owner = none) :
      Moves i run (.judge i) {run with point := .ended .failed} s.dedupe s.parked
  | parks (here : run.point = .judge) :
      Moves i run (.judge i) {run with point := .park} s.dedupe s.parked
  | redelivers (here : run.point = .judge) (ended : s.live run = false) :
      Moves i run (.judge i) {run with point := .ended .redeliver} s.dedupe s.parked
  | parked {reply} (here : run.point = .park) :
      Moves i run (.park i reply) {run with point := .ended .parked} s.dedupe (s.parked ++ [run.record])
  | lost (here : run.point = .park) :
      Moves i run (.park i .failed) {run with point := .ended .lost} s.dedupe s.parked
  | dies (running : run.point.running = true) (owner : run.owner = none) :
      Moves i run (.crashTool i) {run with point := .dead} s.dedupe s.parked

inductive Does : Action → State → Prop where
  | tick (d : Nat) : Does (.tick d) {s with clock := s.clock + d}
  | join (topic : String) : Does (.join topic) {s with
      consumers := s.consumers ++ [⟨topic,false,false,true,fun _ => none,[],none⟩]}
  | assign {c place k} (found : s.consumers[c]? = some k) : Does (.assign c place) (s.setConsumer c
      {k with position := Function.update k.position place (some (s.committed place))})
  | revoke {c place k} (found : s.consumers[c]? = some k) : Does (.revoke c place) (s.setConsumer c
      {k with position := Function.update k.position place none})
  | poll {c place n k pos} (found : s.consumers[c]? = some k) (position : k.position place = some pos) :
      Does (.poll c place n) (s.setConsumer c {k with
        position := Function.update k.position place (some (pos + n))
        todo := k.todo ++ fetch env place pos n})
  | handle {c k r rest} (found : s.consumers[c]? = some k) (todo : k.todo = r::rest) (idle : s.idle k = true) :
      Does (.handle c) {s.setConsumer c {k with
        polling := false,todo := rest,run := some s.runs.length} with
          runs := s.runs ++ [⟨some c,r,first env r⟩]}
  | replay {r} : Does (.replay r) {s with runs := s.runs ++ [⟨none,r,first env r⟩]}
  | move {a i run run' store parked} (found : s.runs[i]? = some run)
      (moves : Moves s i run a run' store parked) :
      Does a ({s with dedupe := store,parked := parked}.setRun i run')
  | commit {c accepted k} (found : s.consumers[c]? = some k) (idle : s.idle k = true) (empty : k.todo = []) :
      Does (.commit c accepted) {s.setConsumer c {k with polling := true} with
        committed := fun place =>
          if k.ctxDone = false ∧ place ∈ accepted then (k.position place).getD (s.committed place)
          else s.committed place}
  | stop {c k} (found : s.consumers[c]? = some k) :
      Does (.stop c) (s.setConsumer c {k with ctxDone := true})
  | crash {c k} (found : s.consumers[c]? = some k) :
      Does (.crash c) {s.setConsumer c {k with dead := true} with
        runs := s.runs.map (fun run =>
          if run.owner = some c ∧ run.point.running then {run with point := .dead} else run)}

end Moves

variable {env : Env} {s t : State} {a : Action}

theorem seenMoves {i : Nat} {run : Run} {id : String} {reply : Reply} (found : s.runs[i]? = some run)
    (here : run.point = .seen id) : Does env s (.seen i reply) (seen env s i run id reply) := by
  cases taken : get s.dedupe s.clock (run.record.place.topic,id) with
  | some j =>
    simp only [seen,setNXRefused (.inr (Option.isSome_of_eq_some taken)),taken,Option.isSome_some,ite_self,if_true]
    split
    · rename_i both
      rw [both.1]
      exact .move found (.duplicate here taken)
    · exact .move found (.passes here)
  | none =>
    cases refuses : refused env.cfg.ttl with
    | true =>
      simp only [seen,setNXRefused (.inl refuses),refuses,ite_self,Bool.true_eq_false,and_false,if_false]
      exact .move found (.passes here)
    | false =>
      simp only [seen,setNXMade refuses taken,refuses,taken,Option.isSome_none,and_true,Bool.false_eq_true,if_false]
      cases reply with
      | ok => exact .move found (.sets here rfl (fun _ => rfl))
      | lost => exact .move found (.sets here rfl (fun other => absurd rfl other))
      | failed => exact .move found (.passes here)

theorem failureRuns {claimed ctxDone : Bool} {n : Nat} :
    (afterFailure env claimed ctxDone n).running = true ∧
      (∀ id, afterFailure env claimed ctxDone n ≠ .seen id) ∧
        (claimed = true → (afterFailure env claimed ctxDone n).working = true) := by
  unfold afterFailure
  split
  · exact ⟨rfl,fun _ => Point.noConfusion,fun claims => claims⟩
  split
  · exact ⟨rfl,fun _ => Point.noConfusion,fun _ => rfl⟩
  · rename_i free
    exact ⟨rfl,fun _ => Point.noConfusion,fun claims => absurd claims free⟩

theorem stepDoes (one : step env s a = some t) : Does env s a t := by
  cases a <;> simp only [step,bind,Option.bind_eq_some_iff,Option.some.injEq] at one
  case tick d => subst one; exact .tick d
  case join topic => subst one; exact .join topic
  case assign c place =>
    obtain ⟨k,found,last⟩ := one
    split at last <;> try contradiction
    cases Option.some.inj last
    exact .assign found
  case revoke c place =>
    obtain ⟨k,found,last⟩ := one
    split at last <;> try contradiction
    cases Option.some.inj last
    exact .revoke found
  case poll c place n =>
    obtain ⟨k,found,pos,position,last⟩ := one
    split at last <;> try contradiction
    cases Option.some.inj last
    exact .poll found position
  case handle c =>
    obtain ⟨k,found,last⟩ := one
    split at last <;> try contradiction
    rename_i r rest todo
    split at last <;> try contradiction
    rename_i idle
    cases Option.some.inj last
    exact .handle found todo idle
  case replay r =>
    split at one <;> try contradiction
    cases Option.some.inj one
    exact .replay
  case seen i reply =>
    obtain ⟨run,found,last⟩ := one
    split at last <;> try contradiction
    rename_i id here
    cases Option.some.inj last
    exact seenMoves found here
  case attempt i nil ctxDone =>
    obtain ⟨run,found,last⟩ := one
    split at last <;> try contradiction
    rename_i claimed n here
    cases Option.some.inj last
    cases nil with
    | true => exact .move found (.handled here)
    | false =>
      exact .move found (.fails here failureRuns.1 failureRuns.2.1 failureRuns.2.2)
  case forget i reply =>
    obtain ⟨run,found,key,whose,last⟩ := one
    split at last <;> try contradiction
    rename_i here
    split at last <;> cases Option.some.inj last
    · exact .move found (.forgotten here whose)
    · rename_i undone
      exact .move found (.kept here (Bool.eq_false_iff.mpr undone))
  case judge i =>
    obtain ⟨run,found,last⟩ := one
    split at last <;> try contradiction
    rename_i here
    cases Option.some.inj last
    split
    · exact .move found (.tool here (by assumption))
    · rename_i c owner
      split
      · exact .move found (.parks here)
      · rename_i ended
        exact .move found (.redelivers here (by simpa [State.live,owner] using ended))
  case park i reply =>
    obtain ⟨run,found,last⟩ := one
    split at last <;> try contradiction
    rename_i here
    split at last <;> cases Option.some.inj last
    · exact .move found (.parked here)
    · cases reply <;> try contradiction
      exact .move found (.lost here)
  case commit c accepted =>
    obtain ⟨k,found,last⟩ := one
    split at last <;> try contradiction
    rename_i both
    cases Option.some.inj last
    exact .commit found both.1 both.2
  case stop c =>
    obtain ⟨k,found,rfl⟩ := one
    exact .stop found
  case crash c =>
    obtain ⟨k,found,rfl⟩ := one
    exact .crash found
  case crashTool i =>
    obtain ⟨run,found,last⟩ := one
    split at last <;> try contradiction
    rename_i both
    cases Option.some.inj last
    exact .move found (.dies both.2 both.1)

def Pending (s : State) (k : Consumer) (r : Record) : Prop :=
  r ∈ k.todo ∨ ∃ i run, k.run = some i ∧ s.runs[i]? = some run ∧ run.record = r ∧
    run.point.running = true

def Reached (env : Env) (s : State) (k : Consumer) (place : Place) (pos : Nat) : Prop :=
  ∀ offset id, env.log place offset = some id → offset < pos →
    Done s ⟨place,offset,id⟩ ∨ Pending s k ⟨place,offset,id⟩

def Covered (env : Env) (s : State) (k : Consumer) : Prop :=
  ∀ place pos, k.position place = some pos → Reached env s k place pos

structure Delivered (env : Env) (s : State) : Prop where
  committed : AtLeastOnce env s
  covered : ∀ (c : Nat) (k : Consumer), s.consumers[c]? = some k → k.dead = false →
    k.ctxDone = false → Covered env s k
  owner : ∀ (c : Nat) (k : Consumer) (i : Nat), s.consumers[c]? = some k → k.run = some i →
    ∃ run, s.runs[i]? = some run ∧ run.owner = some c
  seen : ∀ run ∈ s.runs, ∀ id, run.point = .seen id → run.record.id = some id ∧ id ≠ ""
  keys : ∀ key e, s.dedupe key = some e →
    ∃ run, s.runs[e.value]? = some run ∧ run.key = some key

def RunsKept (s t : State) : Prop :=
  ∀ (i : Nat) (run : Run), s.runs[i]? = some run → ∃ now, t.runs[i]? = some now ∧
    now.record = run.record ∧ now.owner = run.owner ∧ (run.point.running = false → now = run)

section Runs
variable {i j c : Nat} {run run' : Run} {k k' : Consumer} {r : Record} {store : Store Key Nat}
  {parked : List Record}

theorem firstRuns : (first env r).running = true := by
  unfold first
  split
  · rfl
  · split <;> rfl

theorem movesKeep (moves : Moves s i run a run' store parked) :
    run.point.running = true ∧ run'.record = run.record ∧ run'.owner = run.owner := by
  have runs : run.point.running = true := by
    cases moves with
    | dies running => exact running
    | duplicate here | sets here | passes here | handled here | fails here | forgotten here
    | kept here | tool here | parks here | redelivers here | parked here | lost here => rw [here]; rfl
  refine ⟨runs,?_⟩
  cases moves <;> exact ⟨rfl,rfl⟩

theorem keptRefl : RunsKept s s := fun _ run found => ⟨run,found,rfl,rfl,fun _ => rfl⟩

theorem keptAppend {new : Run} {u : State} (runs : u.runs = s.runs ++ [new]) : RunsKept s u := by
  intro i run found
  have short := (List.getElem?_eq_some_iff.mp found).1
  exact ⟨run,by rw [runs,List.getElem?_append_left short,found],rfl,rfl,fun _ => rfl⟩

theorem keptSet {u : State} (found : s.runs[i]? = some run) (runs : u.runs = s.runs.set i run')
    (moves : run.point.running = true ∧ run'.record = run.record ∧ run'.owner = run.owner) :
    RunsKept s u := by
  intro j other there
  have short := (List.getElem?_eq_some_iff.mp found).1
  by_cases here : i = j
  · subst here
    cases Option.some.inj (found.symm.trans there)
    refine ⟨run',by rw [runs,List.getElem?_set_self short],moves.2.1,moves.2.2,fun ended => ?_⟩
    rw [moves.1] at ended
    contradiction
  · exact ⟨other,by rw [runs,List.getElem?_set_ne here,there],rfl,rfl,fun _ => rfl⟩

theorem keptCrash {u : State} (runs : u.runs = s.runs.map (fun run =>
    if run.owner = some c ∧ run.point.running then {run with point := .dead} else run)) :
    RunsKept s u := by
  intro i run found
  by_cases both : run.owner = some c ∧ run.point.running
  · refine ⟨{run with point := .dead},?_,rfl,rfl,fun ended => ?_⟩
    · rw [runs,List.getElem?_map,found,Option.map_some,if_pos both]
    · rw [both.2] at ended
      contradiction
  · exact ⟨run,by rw [runs,List.getElem?_map,found,Option.map_some,if_neg both],rfl,rfl,fun _ => rfl⟩

theorem runsKept (does : Does env s a t) : RunsKept s t := by
  cases does with
  | handle => exact keptAppend rfl
  | replay => exact keptAppend rfl
  | move found moves => exact keptSet found rfl (movesKeep moves)
  | crash => exact keptCrash rfl
  | _ => exact keptRefl

theorem parkedKept (does : Does env s a t) (mem : r ∈ s.parked) : r ∈ t.parked := by
  cases does with
  | move found moves =>
    cases moves with
    | parked here => exact List.mem_append_left _ mem
    | _ => exact mem
  | _ => exact mem

theorem doneKept (does : Does env s a t) (done : Done s r) : Done t r := by
  rcases done with parked | ⟨run,mem,handled⟩
  · exact .inl (parkedKept does parked)
  · obtain ⟨i,found⟩ := List.getElem?_of_mem mem
    obtain ⟨now,after,-,-,same⟩ := runsKept does i run found
    rw [same (by rw [handled.1]; rfl)] at after
    exact .inr ⟨run,List.mem_of_getElem? after,handled⟩

theorem moveEnds (inv : Delivered env s) (sure : Sure s a) (found : s.runs[i]? = some run)
    (moves : Moves s i run a run' store parked) :
    run'.point.running = true ∨ Done ({s with dedupe := store,parked := parked}.setRun i run') run.record ∨
      run.owner = none ∨ s.live run = false := by
  have does : Does env s a _ := .move found moves
  cases moves with
  | @duplicate id j here taken =>
    simp only [Sure,Kafkax.sure,found,Option.all_some,here,taken,Bool.or_eq_true,Bool.not_eq_true',
      decide_eq_true_eq] at sure
    rcases sure with (ended | held) | settled
    · exact .inr (.inr (.inr ended))
    · exact .inr (.inl (.inl held))
    · obtain ⟨named,nonempty⟩ := inv.seen run (List.mem_of_getElem? found) id here
      obtain ⟨e,raw,-,rfl⟩ := getExact.mp taken
      obtain ⟨setter,there,key⟩ := inv.keys _ e raw
      simp only [State.settled,there,Option.any_some,decide_eq_true_eq] at settled
      obtain ⟨name,known,same⟩ := Option.map_eq_some_iff.mp key
      obtain ⟨topic,rfl⟩ := Prod.mk.inj same
      refine .inr (.inl (doneKept does (.inr ⟨setter,List.mem_of_getElem? there,settled,topic,?_,?_⟩)))
      · rw [known,named]
      · intro empty
        rw [named] at empty
        exact absurd (Option.some.inj empty) nonempty
  | handled here =>
    refine .inr (.inl (.inr ⟨{run with point := .ended .handled},?_,rfl,rfl,rfl,fun _ => rfl⟩))
    exact List.mem_of_getElem? (i := i) (List.getElem?_set_self (List.getElem?_eq_some_iff.mp found).1)
  | tool here owner => exact .inr (.inr (.inl owner))
  | redelivers here ended => exact .inr (.inr (.inr ended))
  | parked here => exact .inr (.inl (.inl (List.mem_append_right _ (List.mem_singleton_self _))))
  | lost here =>
    simp only [Sure,Kafkax.sure,found,Option.all_some,Bool.or_eq_true,Bool.not_eq_true',
      decide_eq_true_eq] at sure
    rcases sure with ended | held
    · exact .inr (.inr (.inr ended))
    · exact .inr (.inl (.inl held))
  | dies running owner => exact .inr (.inr (.inl owner))
  | fails here goes => exact .inl goes
  | sets | passes | forgotten | kept | parks => exact .inl rfl

theorem seenStep (inv : Delivered env s) (does : Does env s a t) (mem : run ∈ t.runs) {id : String}
    (here : run.point = .seen id) : run.record.id = some id ∧ id ≠ "" := by
  have new : ∀ {owner : Option Nat} {r : Record}, run ∈ s.runs ++ [⟨owner,r,first env r⟩] →
      run.record.id = some id ∧ id ≠ "" := by
    intro owner r mem
    rcases List.mem_append.mp mem with old | last
    · exact inv.seen run old id here
    · cases List.mem_singleton.mp last
      simp only [first] at here
      split at here <;> try contradiction
      rename_i name
      split at here <;> try contradiction
      rename_i both
      cases here
      exact ⟨name,both.2⟩
  cases does with
  | handle => exact new mem
  | replay => exact new mem
  | move found moves =>
    rcases List.mem_or_eq_of_mem_set mem with old | rfl
    · exact inv.seen run old id here
    · cases moves with
      | fails here' goes not => exact absurd here (not id)
      | _ => cases here
  | crash =>
    obtain ⟨old,held,rfl⟩ := List.mem_map.mp mem
    split at here
    · cases here
    · rename_i other
      rw [if_neg other]
      exact inv.seen old held id here
  | _ => exact inv.seen run mem id here

theorem keysStep (inv : Delivered env s) (does : Does env s a t) {key : Key} {e : Entry Nat}
    (raw : t.dedupe key = some e) : ∃ setter, t.runs[e.value]? = some setter ∧ setter.key = some key := by
  have kept : s.dedupe key = some e → ∃ setter, t.runs[e.value]? = some setter ∧ setter.key = some key := by
    intro raw
    obtain ⟨setter,there,known⟩ := inv.keys key e raw
    obtain ⟨now,after,same,-⟩ := runsKept does e.value setter there
    exact ⟨now,after,by rw [Run.key,same]; exact known⟩
  cases does with
  | @move _ i run _ _ _ found moves =>
    cases moves with
    | @sets reply id claimed f here mine =>
      have raw : Function.update s.dedupe (run.record.place.topic,id) (some f) key = some e := raw
      by_cases this : key = (run.record.place.topic,id)
      · subst this
        rw [Function.update_self] at raw
        cases Option.some.inj raw
        refine ⟨_,by rw [mine]; exact List.getElem?_set_self (List.getElem?_eq_some_iff.mp found).1,?_⟩
        simp only [Run.key,(inv.seen run (List.mem_of_getElem? found) id here).1,Option.map_some]
      · rw [Function.update_of_ne this] at raw
        exact kept raw
    | forgotten => exact kept (delKeeps raw).2
    | _ => exact kept raw
  | _ => exact kept raw

theorem consumerSet {d : Nat} {now : Consumer} (there : (s.consumers.set c k')[d]? = some now) :
    (d = c ∧ now = k') ∨ (d ≠ c ∧ s.consumers[d]? = some now) := by
  by_cases here : d = c
  · subst here
    have short : d < s.consumers.length := by
      simpa using (List.getElem?_eq_some_iff.mp there).1
    rw [List.getElem?_set_self short] at there
    exact .inl ⟨rfl,(Option.some.inj there).symm⟩
  · rw [List.getElem?_set_ne (Ne.symm here)] at there
    exact .inr ⟨here,there⟩

theorem consumerJoin (there : (s.consumers ++ [k'])[c]? = some k) : k = k' ∨ s.consumers[c]? = some k := by
  rw [List.getElem?_append] at there
  split at there
  · exact .inr there
  · exact .inl (List.mem_singleton.mp (List.mem_of_getElem? there))

theorem ownerStep (inv : Delivered env s) (does : Does env s a t) (there : t.consumers[c]? = some k)
    (last : k.run = some i) : ∃ run, t.runs[i]? = some run ∧ run.owner = some c := by
  have kept : ∀ {k : Consumer}, s.consumers[c]? = some k → k.run = some i →
      ∃ run, t.runs[i]? = some run ∧ run.owner = some c := by
    intro k there last
    obtain ⟨run,found,owner⟩ := inv.owner c k i there last
    obtain ⟨now,after,-,same,-⟩ := runsKept does i run found
    exact ⟨now,after,same.trans owner⟩
  cases does with
  | tick => exact kept there last
  | replay => exact kept there last
  | move => exact kept there last
  | join topic =>
    rcases consumerJoin there with rfl | old
    · contradiction
    · exact kept old last
  | handle found =>
    rcases consumerSet there with ⟨rfl,rfl⟩ | ⟨-,old⟩
    · cases Option.some.inj last
      exact ⟨_,List.getElem?_concat_length,rfl⟩
    · exact kept old last
  | assign found | revoke found | poll found | commit found | stop found | crash found =>
    rcases consumerSet there with ⟨rfl,rfl⟩ | ⟨-,old⟩
    · exact kept found last
    · exact kept old last

theorem runningKept (inv : Delivered env s) (does : Does env s a t) (sure : Sure s a)
    (there : s.consumers[c]? = some k) (working : k.ctxDone = false) (spared : a ≠ .crash c)
    (last : k.run = some i) (found : s.runs[i]? = some run) (runs : run.point.running = true) :
    Done t run.record ∨ ∃ now, t.runs[i]? = some now ∧ now.record = run.record ∧
      now.point.running = true := by
  obtain ⟨own,held,owner⟩ := inv.owner c k i there last
  cases Option.some.inj (found.symm.trans held)
  have short := (List.getElem?_eq_some_iff.mp found).1
  cases does with
  | handle => exact .inr ⟨run,by rw [List.getElem?_append_left short,found],rfl,runs⟩
  | replay => exact .inr ⟨run,by rw [List.getElem?_append_left short,found],rfl,runs⟩
  | @move _ j other other' store parked here moves =>
    by_cases same : j = i
    · subst same
      cases Option.some.inj (found.symm.trans here)
      have kept := movesKeep moves
      rcases moveEnds inv sure here moves with goes | done | tool | dead
      · exact .inr ⟨other',List.getElem?_set_self short,kept.2.1,goes⟩
      · exact .inl done
      · rw [owner] at tool
        contradiction
      · simp [State.live,State.ctxLive,owner,there,working] at dead
    · exact .inr ⟨run,by simpa only [State.setRun,List.getElem?_set_ne same] using found,rfl,runs⟩
  | @crash d k' found' =>
    have other : ¬ (run.owner = some d ∧ run.point.running = true) := by
      rintro ⟨same,-⟩
      rw [owner] at same
      exact spared (by rw [Option.some.inj same])
    exact .inr ⟨run,by rw [List.getElem?_map,found,Option.map_some,if_neg other],rfl,runs⟩
  | _ => exact .inr ⟨run,found,rfl,runs⟩

theorem reachedKept (inv : Delivered env s) (does : Does env s a t) (sure : Sure s a)
    (there : s.consumers[c]? = some k) (working : k.ctxDone = false) (spared : a ≠ .crash c)
    (todo : ∀ r ∈ k.todo, r ∈ k'.todo) (last : k'.run = k.run) {place : Place} {pos : Nat}
    (reached : Reached env s k place pos) : Reached env t k' place pos := by
  intro offset id logged before
  rcases reached offset id logged before with done | waits | ⟨i,run,mine,found,same,runs⟩
  · exact .inl (doneKept does done)
  · exact .inr (.inl (todo _ waits))
  · rcases runningKept inv does sure there working spared mine found runs with done | ⟨now,after,record,goes⟩
    · exact .inl (same ▸ done)
    · exact .inr (.inr ⟨i,now,last.trans mine,after,record.trans same,goes⟩)

theorem coveredReached (inv : Delivered env s) (does : Does env s a t) (sure : Sure s a)
    (there : s.consumers[c]? = some k) (alive : k.dead = false) (working : k.ctxDone = false)
    (spared : a ≠ .crash c) (todo : ∀ r ∈ k.todo, r ∈ k'.todo) (last : k'.run = k.run)
    (place : Place) (pos : Nat) (position : k.position place = some pos) : Reached env t k' place pos :=
  reachedKept inv does sure there working spared todo last (inv.covered c k there alive working place pos position)

theorem coveredKept (inv : Delivered env s) (does : Does env s a t) (sure : Sure s a)
    (there : s.consumers[c]? = some k) (alive : k.dead = false) (working : k.ctxDone = false)
    (spared : a ≠ .crash c) : Covered env t k :=
  coveredReached inv does sure there alive working spared (fun _ mem => mem) rfl

theorem coveredSet {d : Nat} (inv : Delivered env s) (does : Does env s a t) (sure : Sure s a)
    (writes : t.consumers = s.consumers.set d k') (spared : c ≠ d → a ≠ .crash c)
    (own : k'.dead = false → k'.ctxDone = false → Covered env t k')
    (there : t.consumers[c]? = some k) (alive : k.dead = false) (working : k.ctxDone = false) :
    Covered env t k := by
  rw [writes] at there
  rcases consumerSet there with ⟨-,rfl⟩ | ⟨other,old⟩
  · exact own alive working
  · exact coveredKept inv does sure old alive working (spared other)

theorem coveredUpdate {place : Place} {now : Option Nat} (writes : k'.position = Function.update k.position place now)
    (here : ∀ pos, now = some pos → Reached env t k' place pos)
    (elsewhere : ∀ other pos, k.position other = some pos → Reached env t k' other pos) : Covered env t k' := by
  intro other pos position
  rw [writes] at position
  by_cases same : other = place
  · subst same
    rw [Function.update_self] at position
    exact here pos position
  · rw [Function.update_of_ne same] at position
    exact elsewhere other pos position

theorem fetched {place : Place} {pos n offset : Nat} {id : Option String}
    (logged : env.log place offset = some id) (after : pos ≤ offset) (before : offset < pos + n) :
    (⟨place,offset,id⟩ : Record) ∈ fetch env place pos n := by
  refine List.mem_filterMap.mpr ⟨offset - pos,List.mem_range.mpr (by omega),?_⟩
  rw [show pos + (offset - pos) = offset by omega,logged,Option.map_some]

theorem idleReached {place : Place} {pos offset : Nat} {id : Option String} (reached : Reached env s k place pos)
    (idle : s.idle k = true) (logged : env.log place offset = some id) (before : offset < pos) :
    Done s ⟨place,offset,id⟩ ∨ (⟨place,offset,id⟩ : Record) ∈ k.todo := by
  rcases reached offset id logged before with done | waits | ⟨i,run,mine,there,-,runs⟩
  · exact .inl done
  · exact .inr waits
  · simp [State.idle,State.runningAt,mine,there,runs] at idle

theorem polledReached {d n pos : Nat} {place : Place} (inv : Delivered env s) (does : Does env s (.poll d place n) t)
    (sure : Sure s (.poll d place n)) (found : s.consumers[d]? = some k) (alive : k.dead = false)
    (working : k.ctxDone = false) (position : k.position place = some pos)
    (todo : k'.todo = k.todo ++ fetch env place pos n) (last : k'.run = k.run) :
    Reached env t k' place (pos + n) := by
  intro offset id logged before
  have held : ∀ r ∈ k.todo, r ∈ k'.todo := fun _ mem => todo ▸ List.mem_append_left _ mem
  by_cases earlier : offset < pos
  · exact coveredReached inv does sure found alive working Action.noConfusion held last place pos position
      offset id logged earlier
  · have brought : (⟨place,offset,id⟩ : Record) ∈ k'.todo :=
      todo ▸ List.mem_append_right _ (fetched logged (by omega) before)
    exact .inr (.inl brought)

theorem handledCovered {d : Nat} {rest : List Record} (inv : Delivered env s) (does : Does env s (.handle d) t)
    (found : s.consumers[d]? = some k) (alive : k.dead = false) (working : k.ctxDone = false)
    (todo : k.todo = r::rest) (idle : s.idle k = true) (runs : t.runs = s.runs ++ [⟨some d,r,first env r⟩])
    (after : k'.position = k.position ∧ k'.todo = rest ∧ k'.run = some s.runs.length) : Covered env t k' := by
  intro place pos position offset id logged before
  have reached : Reached env s k place pos := inv.covered d k found alive working place pos (after.1 ▸ position)
  rcases idleReached reached idle logged before with done | waits
  · exact .inl (doneKept does done)
  · rw [todo] at waits
    rcases List.mem_cons.mp waits with same | later
    · have new : t.runs[s.runs.length]? = some ⟨some d,r,first env r⟩ := by rw [runs,List.getElem?_concat_length]
      exact .inr (.inr ⟨s.runs.length,_,after.2.2,new,same.symm,firstRuns⟩)
    · exact .inr (.inl (after.2.1 ▸ later))

theorem coveredStep (inv : Delivered env s) (does : Does env s a t) (sure : Sure s a)
    (there : t.consumers[c]? = some k) (alive : k.dead = false) (working : k.ctxDone = false) :
    Covered env t k := by
  cases does with
  | tick => exact coveredKept inv (.tick _) sure there alive working Action.noConfusion
  | replay => exact coveredKept inv .replay sure there alive working Action.noConfusion
  | move found moves =>
    have spared : a ≠ .crash c := by rintro rfl; cases moves
    exact coveredKept inv (.move found moves) sure there alive working spared
  | join topic =>
    rcases consumerJoin there with rfl | old
    · intro place pos position
      contradiction
    · exact coveredKept inv (.join topic) sure old alive working Action.noConfusion
  | assign found =>
    refine coveredSet inv (.assign found) sure rfl (fun _ => Action.noConfusion) ?_ there alive working
    intro alive working
    refine coveredUpdate rfl ?_ (coveredReached inv (.assign found) sure found alive working Action.noConfusion
      (fun _ mem => mem) rfl)
    rintro pos committed offset id logged before
    cases Option.some.inj committed
    exact .inl (inv.committed _ offset id logged before)
  | revoke found =>
    refine coveredSet inv (.revoke found) sure rfl (fun _ => Action.noConfusion) ?_ there alive working
    intro alive working
    refine coveredUpdate rfl ?_ (coveredReached inv (.revoke found) sure found alive working Action.noConfusion
      (fun _ mem => mem) rfl)
    intro pos none'
    contradiction
  | poll found position =>
    refine coveredSet inv (.poll found position) sure rfl (fun _ => Action.noConfusion) ?_ there alive working
    intro alive working
    refine coveredUpdate rfl ?_ (coveredReached inv (.poll found position) sure found alive working
      Action.noConfusion (fun _ mem => List.mem_append_left _ mem) rfl)
    intro pos moved
    cases Option.some.inj moved
    exact polledReached inv (.poll found position) sure found alive working position rfl rfl
  | handle found todo idle =>
    exact coveredSet inv (.handle found todo idle) sure rfl (fun _ => Action.noConfusion)
      (fun alive working => handledCovered inv (.handle found todo idle) found alive working todo idle rfl
        ⟨rfl,rfl,rfl⟩) there alive working
  | commit found idle empty =>
    exact coveredSet inv (.commit found idle empty) sure rfl (fun _ => Action.noConfusion)
      (fun alive working place pos position => coveredReached inv (.commit found idle empty) sure found alive working
        Action.noConfusion (fun _ mem => mem) rfl place pos position) there alive working
  | stop found =>
    exact coveredSet inv (.stop found) sure rfl (fun _ => Action.noConfusion)
      (fun _ ended => Bool.noConfusion ended) there alive working
  | crash found =>
    exact coveredSet inv (.crash found) sure rfl (fun other same => other (Action.crash.inj same).symm)
      (fun dead _ => Bool.noConfusion dead) there alive working

theorem committedStep (inv : Delivered env s) (does : Does env s a t) : AtLeastOnce env t := by
  intro place offset id logged before
  refine doneKept does ?_
  have already := inv.committed place offset id logged
  cases does with
  | @commit c accepted k found idle empty =>
    simp only at before
    split at before
    · rename_i both
      cases position : k.position place with
      | none =>
        rw [position,Option.getD_none] at before
        exact already before
      | some pos =>
        rw [position,Option.getD_some] at before
        have alive : k.dead = false := by
          simp only [State.idle,Bool.and_eq_true,Bool.not_eq_true'] at idle
          exact idle.1
        rcases idleReached (inv.covered c k found alive both.1 place pos position) idle logged before
          with done | waits
        · exact done
        · rw [empty] at waits
          contradiction
    · exact already before
  | _ => exact already before

theorem deliveredStep (inv : Delivered env s) (sure : Sure s a) (one : step env s a = some t) :
    Delivered env t where
  committed := committedStep inv (stepDoes one)
  covered _ _ there alive working := coveredStep inv (stepDoes one) sure there alive working
  owner _ _ _ there last := ownerStep inv (stepDoes one) there last
  seen _ mem _ here := seenStep inv (stepDoes one) mem here
  keys _ _ raw := keysStep inv (stepDoes one) raw

end Runs

theorem initDelivered (clock : Int) : Delivered env (State.init clock) where
  committed _ _ _ _ before := absurd before (Nat.not_lt_zero _)
  covered _ _ there := by simp [State.init] at there
  owner _ _ _ there := by simp [State.init] at there
  seen _ mem := by simp [State.init] at mem
  keys _ _ raw := by simp [State.init] at raw

theorem atLeastOnce (env : Env) (clock : Int) (as : List Action) (s : State)
    (sure : Along (step env) Sure (State.init clock) as)
    (ok : run (step env) (State.init clock) as = some s) : AtLeastOnce env s :=
  (runKeeps (fun inv sure one => deliveredStep inv sure one) (initDelivered clock) sure ok).committed

def orders : Place := ⟨"orders",0⟩

def twoOrders : Env where
  cfg := ⟨0,true,0⟩
  log place offset := if place = orders then ([some "a",some "b"] : List (Option String))[offset]? else none

def redelivered : List Action :=
  [.join "orders",.assign 0 orders,.poll 0 orders 2,.handle 0,.seen 0 .ok,.attempt 0 true false,
    .handle 0,.seen 1 .ok,.attempt 1 false false,.attempt 1 false false,.attempt 1 false false,
    .forget 1 .ok,.judge 1,.park 1 .ok,.crash 0,
    .join "orders",.assign 1 orders,.poll 1 orders 2,.handle 1,.seen 2 .ok,
    .handle 1,.seen 3 .ok,.attempt 3 true false,.commit 1 [orders]]

theorem redeliveredAtLeastOnce : ∃ s, run (step twoOrders) (State.init 0) redelivered = some s ∧
    s.committed orders = 2 ∧ AtLeastOnce twoOrders s := by
  have facts : (run (step twoOrders) (State.init 0) redelivered).map (fun s => s.committed orders) =
      some 2 := by decide
  obtain ⟨s,ok,committed⟩ := Option.map_eq_some_iff.mp facts
  exact ⟨s,ok,committed,atLeastOnce twoOrders 0 redelivered s (by decide) ok⟩

/- The process dies between its SETNX and the handler: the next consumer takes the event
for a duplicate and commits past it. -/
def skipped : List Action :=
  [.join "orders",.assign 0 orders,.poll 0 orders 1,.handle 0,.seen 0 .ok,.crash 0,
    .join "orders",.assign 1 orders,.poll 1 orders 1,.handle 1,.seen 1 .ok,.commit 1 [orders]]

theorem neverHandled : ¬ ∀ env clock as s, env.cfg.dedupe = true →
    run (step env) (State.init clock) as = some s → AtLeastOnce env s := by
  intro handled
  have facts : (run (step twoOrders) (State.init 0) skipped).map
      (fun s => (s.committed orders,s.parked,s.runs.map Run.point)) =
      some (1,[],[.dead,.ended .duplicate]) := by decide
  obtain ⟨s,ok,same⟩ := Option.map_eq_some_iff.mp facts
  obtain ⟨committed,parked,points⟩ : s.committed orders = 1 ∧ s.parked = [] ∧
      s.runs.map Run.point = [.dead,.ended .duplicate] := by simpa only [Prod.mk.injEq] using same
  rcases handled twoOrders 0 skipped s rfl ok orders 0 (some "a") rfl (by rw [committed]; decide)
    with dead | ⟨run,mem,ended,-⟩
  · rw [parked] at dead
    contradiction
  · have point := List.mem_map_of_mem (f := Run.point) mem
    rw [points,ended] at point
    revert point
    decide

end DevkitCommon.Kafkax
