import DevkitCommon.Lib.Makers
import DevkitCommon.Webhookx.Callback
import Mathlib.Data.List.Basic

/-! No event is lost. The reply to a duplicate stands on the dedupe key alone, and the key is
made before the handler runs: it tells of a handled event only where the delivery that made
it has ended as it should. -/
namespace DevkitCommon.Webhookx
open Machine Makers Redis

def Handled (s : State) (ev : Event) : Prop :=
  ∃ (j : Nat) (d : Delivery), s.deliveries[j]? = some d ∧ d.event.provider = ev.provider ∧
    d.event.id = ev.id ∧ d.outcome = some true

def Answer.success : Answer → Bool
  | .reply _ _ _ => true
  | .status _ => false

def NoneLost (s : State) : Prop :=
  ∀ (i : Nat) (d : Delivery) (a : Answer), s.deliveries[i]? = some d → d.point = .answered a →
    a.success = true → Handled s d.event

def Delivery.working (d : Delivery) : Bool := d.point == .forget || d.point == .handler && d.claimed

/- The mishaps that leave a key behind: an answer to the SETNX that is lost, a process that
dies at work, a Del that is not done. -/
def left (s : State) : Action → List Nat
  | .seen i .lost => [i]
  | .forget i .failed => [i]
  | .crash i => if (s.deliveries[i]?).any Delivery.working then [i] else []
  | _ => []

def leftStep (env : Env) : State × List Nat → Action → Option (State × List Nat) :=
  recording (step env) (fun s a mishaps => left s a ++ mishaps)

def orderly (s : State × List Nat) : Action → Bool
  | .seen i .ok => (s.1.deliveries[i]?).all (fun d => d.point != .seen ||
      (get s.1.keys s.1.clock d.event.key).all (fun j => !s.2.contains j &&
        (s.1.deliveries[j]?).all (fun e =>
          !e.working && e.event.provider == d.event.provider && e.event.id == d.event.id)))
  | _ => true

def Orderly (s : State × List Nat) (a : Action) : Prop := orderly s a = true
instance (s : State × List Nat) (a : Action) : Decidable (Orderly s a) := by unfold Orderly; infer_instance

def Point.early : Point → Bool
  | .archive | .seen | .handler => true
  | _ => false

def Point.success : Point → Bool
  | .reply a | .answered a => a.success
  | _ => false

structure Backed (s : State) (d : Delivery) : Prop where
  fresh : d.point.early = true → d.outcome = none
  handled : d.point.success = true → Handled s d.event

def stages : Makers.Stages Delivery := ⟨Delivery.working,fun d => d.outcome == some true⟩

def Delivery.look (d : Delivery) : Option String × Delivery := (some d.event.key,d)

def Made (s : State × List Nat) : Prop := Makers.Made stages s.1.keys (look Delivery.look s.1.deliveries) s.2

section Moves
variable (env : Env) (s : State)

inductive Moves (i : Nat) (d : Delivery) : Action → Delivery → Store String Nat → Prop where
  | copies {reply p} (here : d.point = .archive) (next : p.success = false) :
      Moves i d (.publish i reply) {d with point := p} s.keys
  | unanswered {reply} (here : d.point = .seen) (why : reply = .ok → refused d.route.cfg.ttl = true) :
      Moves i d (.seen i reply) {d with point := .reply (.status 500)}
        (if reply.ran then setNX s.keys s.clock d.event.key i d.route.cfg.ttl else s.keys)
  | duplicate {j} (here : d.point = .seen) (taken : get s.keys s.clock d.event.key = some j) :
      Moves i d (.seen i .ok) {d with point := .reply d.route.reply} s.keys
  | claims (here : d.point = .seen) :
      Moves i d (.seen i .ok) {d with point := .handler,claimed := true}
        (setNX s.keys s.clock d.event.key i d.route.cfg.ttl)
  | handled (here : d.point = .handler) :
      Moves i d (.handler i true) {d with outcome := some true,point := .reply d.route.reply} s.keys
  | fails (here : d.point = .handler) : Moves i d (.handler i false) {d with
      outcome := some false,point := if d.claimed then .forget else .reply (.status 500)} s.keys
  | forgets {reply} (here : d.point = .forget) :
      Moves i d (.forget i reply) {d with point := .reply (.status 500)}
        (if reply.ran then del s.keys d.event.key else s.keys)
  | answers {a} (here : d.point = .reply a) : Moves i d (.answer i) {d with point := .answered a} s.keys
  | dies : Moves i d (.crash i) {d with point := .dead} s.keys

inductive Does : Action → State → Prop where
  | tick (d : Nat) : Does (.tick d) {s with clock := s.clock + d}
  | serve (r : Route) (req : Request) :
      Does (.serve r req) {s with deliveries := s.deliveries ++ [first env r req]}
  | move {a i d d' keys archived} (found : s.deliveries[i]? = some d) (moves : Moves s i d a d' keys) :
      Does a ({s with keys := keys,archived := archived}.setDelivery i d')
  | drop (key : String) : Does (.drop key) {s with keys := del s.keys key}

end Moves

variable {env : Env} {s t : State} {a : Action} {i : Nat} {d d' : Delivery} {ev : Event} {keys : Store String Nat}
  {mishaps : List Nat}

theorem afterCopyEarly : (afterCopy env ev).early = true := by
  unfold afterCopy
  split <;> rfl

theorem earlyQuiet {p : Point} (early : p.early = true) : p.success = false := by
  cases p <;> simp_all [Point.early,Point.success]

theorem firstBacked (env : Env) (r : Route) (req : Request) :
    (first env r req).outcome = none ∧ (first env r req).point.success = false := by
  unfold first
  dsimp only
  split
  · exact ⟨rfl,rfl⟩
  split
  · exact ⟨rfl,rfl⟩
  split
  · exact ⟨rfl,rfl⟩
  refine ⟨rfl,?_⟩
  dsimp only
  split
  · rfl
  · exact earlyQuiet afterCopyEarly

theorem lookedMoves {reply : Reply} (here : d.point = .seen) : Moves s i d (.seen i reply) (looked s d reply)
    (if reply.ran then setNX s.keys s.clock d.event.key i d.route.cfg.ttl else s.keys) := by
  unfold looked
  split
  · rename_i ends
    exact .unanswered here (fun ok => ends.resolve_left (fun differs => differs ok))
  · rename_i fine
    simp only [ne_eq,not_or,Decidable.not_not] at fine
    obtain ⟨rfl,-⟩ := fine
    rw [if_pos (show Reply.ok.ran = true from rfl)]
    split
    · rename_i taken
      rw [setNXRefused (.inr taken)]
      obtain ⟨j,taken⟩ := Option.isSome_iff_exists.mp taken
      exact .duplicate here taken
    · exact .claims here

theorem stepDoes (one : step env s a = some t) : Does env s a t := by
  cases a <;> simp only [step,bind,Option.bind_eq_some_iff,Option.some.injEq] at one
  case tick d => subst one; exact .tick d
  case serve r req => subst one; exact .serve r req
  case drop key => subst one; exact .drop key
  case publish i reply =>
    obtain ⟨d,found,last⟩ := one
    split at last <;> try contradiction
    rename_i here
    cases Option.some.inj last
    refine .move found (.copies here ?_)
    split
    · exact earlyQuiet afterCopyEarly
    · rfl
  case seen i reply =>
    obtain ⟨d,found,last⟩ := one
    split at last <;> try contradiction
    rename_i here
    cases Option.some.inj last
    exact .move found (lookedMoves here)
  case handler i nil =>
    obtain ⟨d,found,last⟩ := one
    split at last <;> try contradiction
    rename_i here
    cases Option.some.inj last
    cases nil with
    | true => exact .move found (.handled here)
    | false => exact .move found (.fails here)
  case forget i reply =>
    obtain ⟨d,found,last⟩ := one
    split at last <;> try contradiction
    rename_i here
    cases Option.some.inj last
    exact .move found (.forgets here)
  case answer i =>
    obtain ⟨d,found,last⟩ := one
    split at last <;> try contradiction
    rename_i answer here
    cases Option.some.inj last
    exact .move found (.answers here)
  case crash i =>
    obtain ⟨d,found,last⟩ := one
    split at last <;> try contradiction
    cases Option.some.inj last
    exact .move found .dies

theorem movesOutcome (fresh : d.point.early = true → d.outcome = none) (moves : Moves s i d a d' keys)
    (nil : d.outcome = some true) : d'.outcome = some true := by
  cases moves with
  | handled => rfl
  | fails here =>
    rw [fresh (by rw [here]; rfl)] at nil
    contradiction
  | copies | unanswered | duplicate | claims | forgets | answers | dies => exact nil

theorem movesEvent (moves : Moves s i d a d' keys) : d'.event = d.event := by
  cases moves <;> rfl

def AllBacked (s : State) : Prop := ∀ (i : Nat) (d : Delivery), s.deliveries[i]? = some d → Backed s d

theorem handledStays (inv : AllBacked s) (does : Does env s a t) (handled : Handled s ev) : Handled t ev := by
  obtain ⟨j,e,found,provider,id,nil⟩ := handled
  cases does with
  | tick => exact ⟨j,e,found,provider,id,nil⟩
  | drop => exact ⟨j,e,found,provider,id,nil⟩
  | serve r req =>
    have short := (List.getElem?_eq_some_iff.mp found).1
    exact ⟨j,e,by rwa [List.getElem?_append_left short],provider,id,nil⟩
  | @move _ i d d' _ _ there moves =>
    by_cases same : i = j
    · subst same
      cases Option.some.inj (found.symm.trans there)
      have short := (List.getElem?_eq_some_iff.mp found).1
      have event := movesEvent moves
      exact ⟨i,d',List.getElem?_set_self short,by rw [event,provider],by rw [event,id],
        movesOutcome (inv i e found).fresh moves nil⟩
    · exact ⟨j,e,(List.getElem?_set_ne same).trans found,provider,id,nil⟩

theorem movesKeys (fresh : d.point.early = true → d.outcome = none) (found : s.deliveries[i]? = some d)
    (moves : Moves s i d a d' keys) :
    KeyStep stages s.keys (some d.event.key) i (i ∈ left s a ++ mishaps) d d' keys := by
  have behind (mem : i ∈ left s a) : i ∈ left s a ++ mishaps := List.mem_append_left _ mem
  have follows (works : d.working = true → Held stages (i ∈ left s a ++ mishaps) d') :
      Follows stages (i ∈ left s a ++ mishaps) d d' :=
    ⟨works,fun done => beq_iff_eq.mpr (movesOutcome fresh moves (eq_of_beq done))⟩
  have idle (no : d.working = false) : Follows stages (i ∈ left s a ++ mishaps) d d' :=
    follows (fun works => absurd (no.symm.trans works) Bool.false_ne_true)
  cases moves with
  | copies here | duplicate here | answers here => exact .goes (idle (by simp [Delivery.working,here]))
  | @unanswered reply here why =>
    have rests := idle (by simp [Delivery.working,here])
    cases reply with
    | ok =>
      rw [if_pos (show Reply.ok.ran = true from rfl),setNXRefused (.inl (why rfl))]
      exact .goes rests
    | failed => exact .goes rests
    | lost => exact setNXStep rfl rests (.inl (behind (List.mem_singleton_self i)))
  | claims here => exact setNXStep rfl (idle (by simp [Delivery.working,here])) (.inr (.inl rfl))
  | handled => exact .goes (follows (fun _ => .inr (.inr rfl)))
  | fails here =>
    refine .goes (follows (fun works => ?_))
    have claimed : d.claimed = true := by simpa [Delivery.working,here] using works
    exact .inr (.inl (by simp [stages,Delivery.working,claimed]))
  | @forgets reply here =>
    cases reply with
    | ok | lost => exact .forgets rfl
    | failed => exact .goes (follows (fun _ => .inl (behind (List.mem_singleton_self i))))
  | dies => exact .goes (follows (fun works => .inl (behind (by simp [left,found,works]))))

theorem madeStep (backed : AllBacked s) (made : Made (s,mishaps)) (does : Does env s a t) :
    Made (t,left s a ++ mishaps) := by
  have wider : ∀ j ∈ mishaps, j ∈ left s a ++ mishaps := fun _ mem => List.mem_append_right _ mem
  cases does with
  | tick => exact callsMade made wider (fun _ _ raw => raw) (fun j own p found => ⟨p,found,followsSame⟩)
  | drop name => exact callsMade made wider (fun _ _ raw => (delKeeps raw).2) (fun j own p found => ⟨p,found,followsSame⟩)
  | serve r req =>
    exact callsMade made wider (fun _ _ raw => raw) (fun j own p found => ⟨p,lookConcat found,followsSame⟩)
  | @move _ i d d' keys _ there moves =>
    obtain ⟨after,others⟩ := lookSet (f := Delivery.look) (y := d') there
    rw [Delivery.look,movesEvent moves] at after
    exact keyStepMade made wider (lookAt there) after others (movesKeys (backed i d there).fresh there moves)

theorem hitHandled (made : Made (s,mishaps)) (orderly : Orderly (s,mishaps) (.seen i .ok))
    (found : s.deliveries[i]? = some d) (here : d.point = .seen) {j : Nat}
    (taken : get s.keys s.clock d.event.key = some j) : Handled s d.event := by
  simp only [Orderly,Webhookx.orderly,found,here,taken,Option.all_some,bne_self_eq_false,Bool.false_or,
    Bool.and_eq_true,Bool.not_eq_true',List.contains_eq_mem,decide_eq_false_iff_not] at orderly
  obtain ⟨clean,meets⟩ := orderly
  have met {x : Delivery} (there : s.deliveries[j]? = some x) :
      (x.working = false ∧ x.event.provider = d.event.provider) ∧ x.event.id = d.event.id := by
    simpa only [there,Option.all_some,Bool.and_eq_true,Bool.not_eq_true',beq_iff_eq] using meets
  have idle (x : Delivery) (seen : look Delivery.look s.deliveries j = some (some d.event.key,x)) : x.working = false := by
    obtain ⟨y,there,same⟩ := lookIs.mp seen
    obtain ⟨-,rfl⟩ := Prod.mk.inj same
    exact (met there).1.1
  obtain ⟨x,seen,done⟩ := foundDone made taken clean idle
  obtain ⟨y,there,same⟩ := lookIs.mp seen
  obtain ⟨-,rfl⟩ := Prod.mk.inj same
  exact ⟨j,y,there,(met there).1.2,(met there).2,eq_of_beq done⟩

theorem movesBacked (found : s.deliveries[i]? = some d) (backed : Backed s d) (made : Made (s,mishaps))
    (orderly : Orderly (s,mishaps) a) (moves : Moves s i d a d' keys) (stays : Handled s d.event → Handled t d.event)
    (there : t.deliveries[i]? = some d') : Backed t d' := by
  have quiet {p : Point} (same : d'.point = p) (early : p.early = true → d'.outcome = none)
      (silent : p.success = false) : Backed t d' := by
    refine ⟨same ▸ early,fun success => ?_⟩
    rw [same,silent] at success
    contradiction
  cases moves with
  | copies here next => exact quiet rfl (fun _ => backed.fresh (by rw [here]; rfl)) next
  | unanswered here => exact quiet rfl (fun early => Bool.noConfusion early) rfl
  | duplicate here taken =>
    exact ⟨fun early => Bool.noConfusion early,fun _ => stays (hitHandled made orderly found here taken)⟩
  | claims here => exact quiet rfl (fun _ => backed.fresh (by rw [here]; rfl)) rfl
  | handled here => exact ⟨fun early => Bool.noConfusion early,fun _ => ⟨i,_,there,rfl,rfl,rfl⟩⟩
  | fails here =>
    by_cases claimed : d.claimed = true
    · exact quiet (if_pos claimed) (fun early => by simp [Point.early] at early) rfl
    · exact quiet (if_neg claimed) (fun early => by simp [Point.early] at early) rfl
  | forgets here => exact quiet rfl (fun early => Bool.noConfusion early) rfl
  | answers here =>
    refine ⟨fun early => Bool.noConfusion early,fun success => stays (backed.handled ?_)⟩
    rwa [here]
  | dies => exact quiet rfl (fun early => Bool.noConfusion early) rfl

theorem backedStep (inv : AllBacked s) (made : Made (s,mishaps)) (orderly : Orderly (s,mishaps) a)
    (does : Does env s a t) : AllBacked t := by
  intro i now found
  have stays {ev : Event} : Handled s ev → Handled t ev := handledStays inv does
  have kept (d : Delivery) (before : s.deliveries[i]? = some d) : Backed t d :=
    ⟨(inv i d before).fresh,fun success => stays ((inv i d before).handled success)⟩
  cases does with
  | tick => exact kept now found
  | drop => exact kept now found
  | serve r req =>
    rw [List.getElem?_append] at found
    split at found
    · exact kept now found
    · cases List.mem_singleton.mp (List.mem_of_getElem? found)
      obtain ⟨fresh,quiet⟩ := firstBacked env r req
      refine ⟨fun _ => fresh,fun success => ?_⟩
      rw [quiet] at success
      contradiction
  | @move _ c d d' _ _ there moves =>
    by_cases same : c = i
    · subst same
      have short := (List.getElem?_eq_some_iff.mp there).1
      have after := List.getElem?_set_self (a := d') short
      cases Option.some.inj (found.symm.trans after)
      exact movesBacked there (inv c d there) made orderly moves stays found
    · exact kept now ((List.getElem?_set_ne same).symm.trans found)

theorem noneLost (env : Env) (clock : Int) (as : List Action) (s : State)
    (orderly : Along (leftStep env) Orderly (State.init clock,[]) as)
    (ok : run (step env) (State.init clock) as = some s) : NoneLost s := by
  have keep : ∀ {s : State × List Nat} {a t}, AllBacked s.1 ∧ Made s → Orderly s a → leftStep env s a = some t →
      AllBacked t.1 ∧ Made t := by
    rintro ⟨s,mishaps⟩ a ⟨t,_⟩ ⟨backed,made⟩ orderly one
    obtain ⟨one,rfl⟩ := recordingStep one
    have does := stepDoes one
    exact ⟨backedStep backed made orderly does,madeStep backed made does⟩
  have start : AllBacked (State.init clock) ∧ Made (State.init clock,[]) :=
    ⟨fun _ _ found => by simp [State.init] at found,fun _ _ found => by simp [State.init] at found⟩
  obtain ⟨mishaps,ends⟩ := runRecording (s := (State.init clock,[])) ok
  have inv := (runKeeps keep start orderly ends).1
  intro i d a found here success
  exact (inv i d found).handled (by rw [here]; exact success)

def psp : Route := ⟨"psp",⟨"custom",[],⟨"X-Event-Id",""⟩,0,"-",0⟩,200,"text/plain","ok"⟩
def plain : Env := ⟨true,true,fun _ _ => true,fun _ _ _ => true,
  fun source ev => ((ev.headers.find? (fun h => h.1 = source.header)).map Prod.snd).getD ""⟩
def paid : Request := ⟨"POST","/psp","",[("X-Event-Id","e1")],[],"203.0.113.7"⟩

def redelivered : List Action :=
  [.serve psp paid,.seen 0 .ok,.crash 0,.tick 5000,.drop "cb:psp:e1",
    .serve psp paid,.seen 1 .ok,.handler 1 false,.forget 1 .ok,.answer 1,.tick 5000,
    .serve psp paid,.seen 2 .ok,.handler 2 true,.crash 2,.tick 5000,.serve psp paid,.seen 3 .ok,.answer 3]

theorem redeliveredAnswered : ∃ s, run (step plain) (State.init 0) redelivered = some s ∧
    s.deliveries.map Delivery.point = [.dead,.answered (.status 500),.dead,.answered psp.reply] ∧ NoneLost s := by
  have facts : (run (step plain) (State.init 0) redelivered).map (fun s => s.deliveries.map Delivery.point) =
      some [.dead,.answered (.status 500),.dead,.answered psp.reply] := by decide
  obtain ⟨s,ok,points⟩ := Option.map_eq_some_iff.mp facts
  exact ⟨s,ok,points,noneLost plain 0 redelivered s (by decide) ok⟩

def acknowledgedEarly : List Action :=
  [.serve psp paid,.seen 0 .ok,.serve psp paid,.seen 1 .ok,.answer 1,.crash 0]

theorem eventLost : ¬ ∀ env clock as s, run (step env) (State.init clock) as = some s → NoneLost s := by
  intro lossless
  have facts : (run (step plain) (State.init 0) acknowledgedEarly).map
      (fun s => s.deliveries.map (fun d => (d.point,d.outcome))) =
      some [(.dead,none),(.answered psp.reply,none)] := by decide
  obtain ⟨s,ok,points⟩ := Option.map_eq_some_iff.mp facts
  have none' : ∀ d ∈ s.deliveries, d.outcome = none := by
    intro d mem
    have both := List.mem_map_of_mem (f := fun d => (d.point,d.outcome)) mem
    rw [points] at both
    simp only [List.mem_cons,Prod.mk.injEq,List.not_mem_nil,or_false] at both
    rcases both with h | h <;> exact h.2
  have second := congrArg (fun l => l[1]?) points
  simp only [List.getElem?_map] at second
  obtain ⟨d,found,same⟩ := Option.map_eq_some_iff.mp second
  obtain ⟨j,e,there,-,-,nil⟩ := lossless plain 0 acknowledgedEarly s ok 1 d psp.reply found
    (congrArg Prod.fst same) rfl
  rw [none' e (List.mem_of_getElem? there)] at nil
  contradiction

end DevkitCommon.Webhookx
