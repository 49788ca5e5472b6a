import DevkitCommon.Kafkax.Delivery
import DevkitCommon.Kafkax.Position
import DevkitCommon.Lib.Makers

/-! Who made a dedupe key, and what has become of that call. A key outlives its call when the
answer to its SETNX is lost, when the process dies before the handler has returned and when its
Del is not done. Where a check meets no such key and none of a call at work, it finds the key
of an event that is handled. -/
namespace DevkitCommon.Kafkax
open Machine Makers Redis

def stages : Makers.Stages Point := ⟨Point.working,fun p => p == .ended .handled⟩

/- A call on its way has not handled its event yet. -/
theorem runsFollow {mishap : Prop} {p p' : Point} (running : p.running = true)
    (works : p.working = true → Held stages mishap p') : Follows stages mishap p p' := by
  refine ⟨works,fun done => ?_⟩
  rw [eq_of_beq done] at running
  contradiction

theorem idleFollows {mishap : Prop} {p p' : Point} (running : p.running = true) (idle : p.working = false) :
    Follows stages mishap p p' := by
  refine runsFollow running (fun works => ?_)
  rw [idle] at works
  contradiction

section Consumers
variable {env : Env} {s t : State} {a : Action} {i : Nat} {run run' : Run} {store : Store Key Nat}
  {parked : List Record} {mishaps : List Nat}

def Run.look (run : Run) : Option Key × Point := (run.key,run.point)

/- The mishaps of a step: the calls whose keys it may leave behind. -/
def left (s : State) : Action → List Nat
  | .seen i .lost => [i]
  | .forget i .failed => [i]
  | .crash c => (List.range s.runs.length).filter (fun j =>
      (s.runs[j]?).any (fun run => run.owner == some c && run.point.running))
  | .crashTool i => [i]
  | _ => []

def leftStep (env : Env) : State × List Nat → Action → Option (State × List Nat) :=
  recording (step env) (fun s a mishaps => left s a ++ mishaps)

def orderly (s : State × List Nat) : Action → Bool
  | .seen i .ok => (s.1.runs[i]?).all (fun run => !s.1.live run || run.record ∈ s.1.parked ||
      match run.point with
      | .seen id => (get s.1.dedupe s.1.clock (run.record.place.topic,id)).all (fun j =>
          !s.2.contains j && !(s.1.runs[j]?).any (fun setter => setter.point.working))
      | _ => true)
  | a => sure s.1 a

def Orderly (s : State × List Nat) (a : Action) : Prop := orderly s a = true
instance (s : State × List Nat) (a : Action) : Decidable (Orderly s a) := by unfold Orderly; infer_instance

theorem movesKeys (inv : Delivered env s) (found : s.runs[i]? = some run) (moves : Moves s i run a run' store parked) :
    KeyStep stages s.dedupe run.key i (i ∈ left s a ++ mishaps) run.point run'.point store := by
  have runs := (movesKeep moves).1
  have behind (mem : i ∈ left s a) : i ∈ left s a ++ mishaps := List.mem_append_left _ mem
  cases moves with
  | @sets reply id claimed e here mine knows =>
    have key : run.key = some (run.record.place.topic,id) := by
      simp only [Run.key,(inv.seen run (List.mem_of_getElem? found) id here).1,Option.map_some]
    refine .sets key mine ?_
    cases reply with
    | ok | failed => exact .inr (.inl (knows Reply.noConfusion))
    | lost => exact .inl (behind (List.mem_singleton_self i))
  | forgotten here whose => exact .forgets whose
  | handled here => exact .goes (runsFollow runs (fun _ => .inr (.inr rfl)))
  | fails here goes not claims =>
    exact .goes (runsFollow runs (fun works => .inr (.inl (claims (by rwa [here] at works)))))
  | @kept reply here undone =>
    cases reply with
    | failed => exact .goes (runsFollow runs (fun _ => .inl (behind (List.mem_singleton_self i))))
    | ok | lost => contradiction
  | dies => exact .goes (runsFollow runs (fun _ => .inl (behind (List.mem_singleton_self i))))
  | duplicate here | passes here | tool here | parks here | redelivers here | parked here | lost here =>
    exact .goes (idleFollows runs (by rw [here]; rfl))

theorem madeStep (inv : Delivered env s) (made : Made stages s.dedupe (look Run.look s.runs) mishaps)
    (does : Does env s a t) : Made stages t.dedupe (look Run.look t.runs) (left s a ++ mishaps) := by
  have wider : ∀ j ∈ mishaps, j ∈ left s a ++ mishaps := fun _ mem => List.mem_append_right _ mem
  have same : ∀ key e, s.dedupe key = some e → s.dedupe key = some e := fun _ _ raw => raw
  cases does with
  | tick | join | assign | revoke | poll | commit | stop =>
    exact callsMade made wider same (fun j own p found => ⟨p,found,followsSame⟩)
  | handle | replay => exact callsMade made wider same (fun j own p found => ⟨p,lookConcat found,followsSame⟩)
  | @move _ i run run' store parked found moves =>
    have key : run'.key = run.key := by rw [Run.key,(movesKeep moves).2.1,Run.key]
    obtain ⟨after,others⟩ := lookSet (f := Run.look) (y := run') found
    exact keyStepMade made wider (lookAt found) (key ▸ after) others (movesKeys inv found moves)
  | @crash c k found =>
    refine callsMade made wider same (fun j own p found => ?_)
    obtain ⟨run,there,same⟩ := lookIs.mp found
    obtain ⟨rfl,rfl⟩ := Prod.mk.inj same
    by_cases both : run.owner = some c ∧ run.point.running = true
    · have short : j < s.runs.length := (List.getElem?_eq_some_iff.mp there).1
      refine ⟨.dead,?_,runsFollow both.2 (fun _ => .inl (List.mem_append_left _ ?_))⟩
      · simp only [look,List.getElem?_map,there,Option.map_some,if_pos both]
        rfl
      · simp only [left,List.mem_filter,List.mem_range,short,there,Option.any_some,both.1,both.2,beq_self_eq_true,
          Bool.and_self,and_self]
    · refine ⟨run.point,?_,followsSame⟩
      simp only [look,List.getElem?_map,there,Option.map_some,if_neg both]
      rfl

theorem orderlySure (made : Made stages s.dedupe (look Run.look s.runs) mishaps)
    (orderly : Orderly (s,mishaps) a) : Sure s a := by
  cases a with
  | seen i reply =>
    cases reply with
    | ok =>
      cases found : s.runs[i]? with
      | none => simp only [Sure,sure,found,Option.all_none]
      | some run =>
        simp only [Orderly,Kafkax.orderly,Sure,sure,found,Option.all_some,Bool.or_eq_true] at orderly ⊢
        refine orderly.imp_right (fun hit => ?_)
        split <;> try rfl
        rename_i id here
        simp only [here] at hit
        cases taken : get s.dedupe s.clock (run.record.place.topic,id) with
        | none => rfl
        | some j =>
          simp only [taken,Option.all_some,Bool.and_eq_true,Bool.not_eq_true',List.contains_eq_mem,
            decide_eq_false_iff_not] at hit
          have idle (p : Point) (there : look Run.look s.runs j = some (some (run.record.place.topic,id),p)) :
              p.working = false := by
            obtain ⟨setter,found,same⟩ := lookIs.mp there
            obtain ⟨-,rfl⟩ := Prod.mk.inj same
            simpa only [found,Option.any_some] using hit.2
          obtain ⟨p,there,done⟩ := foundDone made taken hit.1 idle
          obtain ⟨setter,found,same⟩ := lookIs.mp there
          have ended : setter.point = .ended .handled := (Prod.mk.inj same).2.trans (eq_of_beq done)
          simp only [Option.all_some,State.settled,found,Option.any_some,ended,decide_true]
    | lost | failed => exact orderly
  | _ => exact orderly

theorem orderlyAlong (env : Env) (clock : Int) (as : List Action)
    (orderly : Along (leftStep env) Orderly (State.init clock,[]) as) :
    Along (step env) Sure (State.init clock) as := by
  have keep : ∀ {s : State × List Nat} {a t}, Delivered env s.1 ∧ Made stages s.1.dedupe (look Run.look s.1.runs) s.2 →
      Orderly s a → leftStep env s a = some t → Delivered env t.1 ∧ Made stages t.1.dedupe (look Run.look t.1.runs) t.2 := by
    rintro ⟨s,mishaps⟩ a ⟨t,_⟩ ⟨inv,made⟩ orderly one
    obtain ⟨one,rfl⟩ := recordingStep one
    exact ⟨deliveredStep inv (orderlySure made orderly) one,madeStep inv made (stepDoes one)⟩
  have start : Delivered env (State.init clock) ∧
      Made stages (State.init clock).dedupe (look Run.look (State.init clock).runs) [] :=
    ⟨initDelivered clock,fun _ _ raw => by cases raw⟩
  have along : Along (leftStep env) (fun s a => Sure s.1 a) (State.init clock,[]) as :=
    alongKeeps keep (fun inv orderly _ => orderlySure inv.2 orderly) start orderly
  exact alongRecording.mp along

theorem orderlyDelivers (env : Env) (clock : Int) (as : List Action) (s : State)
    (orderly : Along (leftStep env) Orderly (State.init clock,[]) as)
    (ok : Machine.run (step env) (State.init clock) as = some s) : AtLeastOnce env s :=
  (runKeeps (fun inv sure one => deliveredStep inv sure one) (initDelivered clock)
    (orderlyAlong env clock as orderly) ok).committed

theorem redeliveredOrderly : Along (leftStep twoOrders) Orderly (State.init 0,[]) redelivered := by decide

end Consumers

namespace DLQ
variable {source : String} {cfg : String → Config} {s t : State} {a : Action} {i : Nat} {call : Call} {p : Point}
  {store : Store String Nat} {mishaps : List Nat}

def Call.key (call : Call) : Option String :=
  call.original.record.id.map (dedupeKey call.service call.original.record.place.topic)

def Call.look (call : Call) : Option String × Point := (call.key,call.point)

def left : Action → List Nat
  | .seen i .lost => [i]
  | .forget i .failed => [i]
  | .crash i => [i]
  | _ => []

def leftStep (source : String) (cfg : String → Config) : State × List Nat → Action → Option (State × List Nat) :=
  recording (step source cfg) (fun _ a mishaps => left a ++ mishaps)

def orderly (s : State × List Nat) : Action → Bool
  | .seen i .ok => (s.1.calls[i]?).all (fun call => !call.tool || match call.point with
      | .seen id => (get s.1.dedupe s.1.clock
          (dedupeKey call.service call.original.record.place.topic id)).all (fun j => !s.2.contains j &&
            (s.1.calls[j]?).all (fun other => !other.point.working && other.service == call.service &&
              other.original.record.id == call.original.record.id))
      | _ => true)
  | a => sure s.1 a

def Orderly (s : State × List Nat) (a : Action) : Prop := orderly s a = true
instance (s : State × List Nat) (a : Action) : Decidable (Orderly s a) := by unfold Orderly; infer_instance

theorem turnsKeys (inv : AllBacked s) (found : s.calls[i]? = some call) (running : call.point.running = true)
    (turns : Turns s i call a p store) :
    KeyStep stages s.dedupe call.key i (i ∈ left a ++ mishaps) call.point p store := by
  have behind (mem : i ∈ left a) : i ∈ left a ++ mishaps := List.mem_append_left _ mem
  cases turns with
  | @sets reply id claimed e here mine knows =>
    have key : call.key = some (dedupeKey call.service call.original.record.place.topic id) := by
      rw [Call.key,((inv i call found).checked id here).1,Option.map_some]
    refine .sets key mine ?_
    cases reply with
    | ok | failed => exact .inr (.inl (knows Reply.noConfusion))
    | lost => exact .inl (behind (List.mem_singleton_self i))
  | forgotten here event => exact .forgets (by rw [Call.key,event,Option.map_some])
  | handled here => exact .goes (runsFollow running (fun _ => .inr (.inr rfl)))
  | fails here claims =>
    exact .goes (runsFollow running (fun works => .inr (.inl (claims (by rwa [here] at works)))))
  | @kept reply here undone =>
    cases reply with
    | failed => exact .goes (runsFollow running (fun _ => .inl (behind (List.mem_singleton_self i))))
    | ok | lost => contradiction
  | dies => exact .goes (runsFollow running (fun _ => .inl (behind (List.mem_singleton_self i))))
  | passes here | judges here | unparked here => exact .goes (idleFollows running (by rw [here]; rfl))

theorem madeStep (inv : AllBacked s) (made : Made stages s.dedupe (look Call.look s.calls) mishaps)
    (does : Does source cfg s a t) : Made stages t.dedupe (look Call.look t.calls) (left a ++ mishaps) := by
  have wider : ∀ j ∈ mishaps, j ∈ left a ++ mishaps := fun _ mem => List.mem_append_right _ mem
  have same : ∀ key e, s.dedupe key = some e → s.dedupe key = some e := fun _ _ raw => raw
  have moved {j : Nat} {call : Call} {p : Point} (found : s.calls[j]? = some call)
      (calls : t.calls = s.calls.set j {call with point := p})
      (one : KeyStep stages s.dedupe call.key j (j ∈ left a ++ mishaps) call.point p t.dedupe) :
      Made stages t.dedupe (look Call.look t.calls) (left a ++ mishaps) := by
    obtain ⟨after,others⟩ := lookSet (f := Call.look) (y := {call with point := p}) found
    rw [calls]
    exact keyStepMade made wider (lookAt found) after others one
  cases does with
  | tick | command | skips | results | commits | refused | crashes =>
    exact callsMade made wider same (fun j own p found => ⟨p,found,followsSame⟩)
  | consume | begins => exact callsMade made wider same (fun j own p found => ⟨p,lookConcat found,followsSame⟩)
  | duplicate found here taken => exact moved found rfl (.goes (idleFollows (by rw [here]; rfl) (by rw [here]; rfl)))
  | moves found running plain turns => exact moved found rfl (turnsKeys inv found running turns)
  | parks found here ran => exact moved found rfl (.goes (idleFollows (by rw [here]; rfl) (by rw [here]; rfl)))

theorem orderlySure (made : Made stages s.dedupe (look Call.look s.calls) mishaps)
    (orderly : Orderly (s,mishaps) a) : Sure s a := by
  cases a with
  | seen i reply =>
    cases reply with
    | ok =>
      cases found : s.calls[i]? with
      | none => simp only [Sure,sure,found,Option.all_none]
      | some call =>
        simp only [Orderly,DLQ.orderly,Sure,sure,found,Option.all_some,Bool.or_eq_true] at orderly ⊢
        refine orderly.imp_right (fun hit => ?_)
        split <;> try rfl
        rename_i id here
        simp only [here] at hit
        cases taken : get s.dedupe s.clock (dedupeKey call.service call.original.record.place.topic id) with
        | none => rfl
        | some j =>
          simp only [taken,Option.all_some,Bool.and_eq_true,Bool.not_eq_true',List.contains_eq_mem,
            decide_eq_false_iff_not] at hit
          have idle (p : Point) (there : look Call.look s.calls j =
              some (some (dedupeKey call.service call.original.record.place.topic id),p)) : p.working = false := by
            obtain ⟨setter,found,same⟩ := lookIs.mp there
            obtain ⟨-,rfl⟩ := Prod.mk.inj same
            simp only [found,Option.all_some,Bool.and_eq_true,Bool.not_eq_true'] at hit
            exact hit.2.1.1
          obtain ⟨p,there,done⟩ := foundDone made taken hit.1 idle
          obtain ⟨setter,found,same⟩ := lookIs.mp there
          have ended : setter.point = .ended .handled := (Prod.mk.inj same).2.trans (eq_of_beq done)
          simp only [found,Option.all_some,Bool.and_eq_true] at hit
          simp only [Option.all_some,State.settled,found,Option.any_some,ended,hit.2.1.2,hit.2.2,beq_self_eq_true,
            Bool.and_self]
    | lost | failed => exact orderly
  | _ => exact orderly

theorem orderlyAlong (source : String) (cfg : String → Config) (clock : Int) (as : List Action)
    (orderly : Along (leftStep source cfg) Orderly (State.init clock,[]) as) :
    Along (step source cfg) Sure (State.init clock) as := by
  have keep : ∀ {s : State × List Nat} {a t}, Watched source s.1 ∧ Made stages s.1.dedupe (look Call.look s.1.calls) s.2 →
      Orderly s a → leftStep source cfg s a = some t →
        Watched source t.1 ∧ Made stages t.1.dedupe (look Call.look t.1.calls) t.2 := by
    rintro ⟨s,mishaps⟩ a ⟨t,_⟩ ⟨inv,made⟩ orderly one
    obtain ⟨one,rfl⟩ := recordingStep one
    have does := stepDoes one
    exact ⟨watchedStep inv (orderlySure made orderly) does,madeStep inv.backed made does⟩
  have start : Watched source (State.init clock) ∧
      Made stages (State.init clock).dedupe (look Call.look (State.init clock).calls) [] :=
    ⟨startWatched source clock,fun _ _ raw => by cases raw⟩
  have along : Along (leftStep source cfg) (fun s a => Sure s.1 a) (State.init clock,[]) as :=
    alongKeeps keep (fun inv orderly _ => orderlySure inv.2 orderly) start orderly
  exact alongRecording.mp along

theorem orderlyGuards (source : String) (cfg : String → Config) (clock : Int) (as : List Action) (s : State)
    (orderly : Along (leftStep source cfg) Orderly (State.init clock,[]) as)
    (ok : run (step source cfg) (State.init clock) as = some s) : Guarded s := by
  have inv := runKeeps (fun inv sure one => watchedStep inv sure (stepDoes one)) (startWatched source clock)
    (orderlyAlong source cfg clock as orderly) ok
  intro l mem passed
  exact inv.positioned.clear l.parker l.partition l mem rfl rfl passed

theorem replayedOrderly : Along (leftStep "events.debit" once) Orderly (State.init 0,[]) replayed := by decide

end DLQ
end DevkitCommon.Kafkax
