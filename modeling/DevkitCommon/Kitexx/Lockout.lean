import DevkitCommon.Kitexx.IdlDeps
import DevkitCommon.Lib.Machine

/-! Two services whose new releases call each other, and the rollout of both: replicas of the
old and of the new releases start, check the gate, open and stop in any order. The cycle rule
of the gate sees instances that are registered, and a new one registers when it has opened. -/
namespace DevkitCommon.Kitexx.IdlDeps
open Machine

structure Service where
  name : String
  old : IDLDeps
  new : IDLDeps
  named : name ≠ ""
  newSelf : new.self = name

inductive Side where
  | first
  | second
  deriving DecidableEq, Repr

def Side.other : Side → Side
  | .first => .second
  | .second => .first

structure Pair where
  service : Side → Service
  apart : (service .first).name ≠ (service .second).name
  lists : ∀ side, (service side.other).name ∈ (service side).new.deps.map Prod.fst

inductive Release where
  | old
  | new
  deriving DecidableEq, Repr

inductive Phase where
  | waiting
  | serving
  | gone
  deriving DecidableEq, Repr

structure Replica where
  side : Side
  release : Release
  addr : String
  phase : Phase
  usable : Bool
  deriving DecidableEq, Repr

structure State where
  others : String → List Instance
  faults : List (String × String)
  replicas : List Replica

inductive Action where
  | world (others : String → List Instance) (faults : List (String × String))
  | start (side : Side) (release : Release) (addr : String)
  | check (i : Nat)
  | health (i : Nat) (usable : Bool)
  | stop (i : Nat)

section Steps
variable (p : Pair) (s : State)

def Pair.release (side : Side) : Release → IDLDeps
  | .old => (p.service side).old
  | .new => (p.service side).new

def registered (side : Side) : List Instance :=
  (s.replicas.filter (fun r => r.side = side && r.phase = .serving && r.usable)).map
    (fun r => ⟨r.addr,(p.release side r.release).metadata⟩)

def lookup : Lookup := fun name =>
  match s.faults.lookup name with
  | some err => .error err
  | none =>
    if name = (p.service .first).name then .ok (registered p s .first)
    else if name = (p.service .second).name then .ok (registered p s .second)
    else .ok (s.others name)

/- A check that finds something unmet sleeps, and nothing has changed; past the deadline the
replica gives up, which is a stop. -/
def step : Action → Option State
  | .world others faults => some {s with others := others,faults := faults}
  | .start side release addr => some {s with replicas := s.replicas ++ [⟨side,release,addr,.waiting,true⟩]}
  | .check i => do
    let r ← s.replicas[i]?
    if r.phase ≠ .waiting then none
    else if opens (p.release r.side r.release) (lookup p s) then
      some {s with replicas := s.replicas.set i {r with phase := .serving}}
    else some s
  | .health i usable => do
    let r ← s.replicas[i]?
    some {s with replicas := s.replicas.set i {r with usable := usable}}
  | .stop i => do
    let r ← s.replicas[i]?
    some {s with replicas := s.replicas.set i {r with phase := .gone}}

def AllOld : Prop := ∀ r ∈ s.replicas, r.release = .old

def Closed : Prop := ∀ r ∈ s.replicas, r.release = .new → r.phase ≠ .serving

structure OnlyOld (side : Side) : Prop where
  some' : (unmet (p.service side).new (lookup p s)).1 ≠ []
  only : ∀ u ∈ (unmet (p.service side).new (lookup p s)).1, ∃ addr gen need,
    u = .tooOld (p.service side.other).name addr gen need ∧
      ∃ r ∈ s.replicas, r.side = side.other ∧ r.release = .old ∧ r.phase = .serving ∧ r.addr = addr

structure LockedOut : Prop where
  waits : ∀ side, ∃ r ∈ s.replicas, r.side = side ∧ r.release = .new ∧ r.phase = .waiting
  only : ∀ side, OnlyOld p s side
  forever : ∀ as t, run (step p) s as = some t → Closed t

end Steps

def Holds (p : Pair) (side that : Side) : Prop :=
  (p.service that).name ∈ (p.service side).new.deps.map Prod.fst ∧
    Outdated (p.service that).old (p.service side).new ((p.service side).new.need (p.service that).name)
instance (p : Pair) (side that : Side) : Decidable (Holds p side that) := by unfold Holds; infer_instance

def Crossed (p : Pair) : Prop := ∀ side, Holds p side side.other ∧ ¬ Holds p side side

section Lookups
variable {p : Pair} {s t : State} {side that : Side} {a : Action}

theorem newSelf : (p.service side).new.self ≠ "" := by
  rw [(p.service side).newSelf]
  exact (p.service side).named

theorem otherApart : (p.service side.other).name ≠ (p.service side).name := by
  cases side
  · exact p.apart.symm
  · exact p.apart

theorem otherOther : side.other.other = side := by cases side <;> rfl

theorem lookupSide (fine : s.faults.lookup (p.service side).name = none) :
    lookup p s (p.service side).name = .ok (registered p s side) := by
  unfold lookup
  rw [fine]
  cases side with
  | first => simp only [if_pos]
  | second => simp only [if_neg p.apart.symm,if_pos]

theorem registeredAlike (closed : Closed s) :
    ∀ x ∈ registered p s side, x.metadata = (p.service side).old.metadata := by
  intro x mem
  obtain ⟨r,kept,rfl⟩ := List.mem_map.mp mem
  obtain ⟨inside,here⟩ := List.mem_filter.mp kept
  simp only [Bool.and_eq_true,decide_eq_true_eq] at here
  obtain ⟨⟨rfl,serving⟩,_⟩ := here
  cases release : r.release with
  | old => rfl
  | new => exact absurd serving (closed r inside release)

theorem unmetSide (closed : Closed s) (fine : s.faults.lookup (p.service that).name = none)
    (some' : registered p s that ≠ []) : (unmetOf (p.service side).new (lookup p s) (p.service that).name).1 =
      if Outdated (p.service that).old (p.service side).new ((p.service side).new.need (p.service that).name)
      then (registered p s that).map (fun x => .tooOld (p.service that).name x.addr (p.service that).old.selfGen
        ((p.service side).new.need (p.service that).name)) else [] := by
  unfold unmetOf
  rw [lookupSide fine]
  simp only [if_neg some']
  exact judgeAlike newSelf (registeredAlike closed)

theorem holdsUnmet (closed : Closed s) (holds : Holds p side that) :
    (unmet (p.service side).new (lookup p s)).1 ≠ [] := by
  have asked : (p.service that).name ∈ (p.service side).new.depNames := memNames.mpr holds.1
  suffices inside : (unmetOf (p.service side).new (lookup p s) (p.service that).name).1 ≠ [] by
    obtain ⟨u,mem⟩ := List.exists_mem_of_ne_nil _ inside
    exact List.ne_nil_of_mem (unmetMem asked mem)
  cases fine : s.faults.lookup (p.service that).name with
  | some err =>
    have failed : lookup p s (p.service that).name = .error err := by
      unfold lookup
      rw [fine]
    unfold unmetOf
    rw [failed]
    exact List.cons_ne_nil _ _
  | none =>
    by_cases some' : registered p s that = []
    · unfold unmetOf
      rw [lookupSide fine]
      simp only [if_pos some']
      exact List.cons_ne_nil _ _
    · rw [unmetSide closed fine some',if_pos holds.2]
      exact fun none' => some' (List.map_eq_nil_iff.mp none')

theorem neverOpens (closed : Closed s) (holds : Holds p side that) :
    opens (p.service side).new (lookup p s) = false := by
  have named : (p.service side).new.empty = false := beq_eq_false_iff_ne.mpr newSelf
  have calls : (p.service side).new.deps ≠ [] := by
    intro none'
    have asked := holds.1
    rw [none'] at asked
    exact absurd asked List.not_mem_nil
  simp only [opens,named,decide_eq_false calls,decide_eq_false (holdsUnmet closed holds),Bool.or_false]

theorem stepClosed (crossed : ∀ side, Holds p side side.other) (closed : Closed s)
    (one : step p s a = some t) : Closed t := by
  cases a <;> simp only [step,bind,Option.bind_eq_some_iff] at one
  case world others faults =>
    cases Option.some.inj one
    exact closed
  case start side release addr =>
    cases Option.some.inj one
    intro r mem new
    rcases List.mem_append.mp mem with before | here
    · exact closed r before new
    · cases List.mem_singleton.mp here
      exact fun same => Phase.noConfusion same
  case check i =>
    obtain ⟨r,found,one⟩ := one
    split at one
    · exact absurd one.symm (Option.some_ne_none _)
    split at one
    · rename_i opened
      cases Option.some.inj one
      intro q mem new
      rcases List.mem_or_eq_of_mem_set mem with before | rfl
      · exact closed q before new
      · have release : r.release = .new := new
        rw [release] at opened
        exact absurd ((neverOpens closed (crossed r.side)).symm.trans opened) Bool.false_ne_true
    · cases Option.some.inj one
      exact closed
  case health i usable =>
    obtain ⟨r,found,one⟩ := one
    cases Option.some.inj one
    intro q mem new
    rcases List.mem_or_eq_of_mem_set mem with before | rfl
    · exact closed q before new
    · exact closed r (List.mem_of_getElem? found) new
  case stop i =>
    obtain ⟨r,found,one⟩ := one
    cases Option.some.inj one
    intro q mem new
    rcases List.mem_or_eq_of_mem_set mem with before | rfl
    · exact closed q before new
    · exact fun same => Phase.noConfusion same

theorem staysClosed (crossed : ∀ side, Holds p side side.other) {as} (closed : Closed s)
    (ok : run (step p) s as = some t) : Closed t :=
  runKeeps (fun closed _ one => stepClosed crossed closed one) closed (alongTrue s as) ok

theorem tooOldSide (closed : Closed s) {name addr : String} {gen need : Int}
    (mem : .tooOld name addr gen need ∈ (unmetOf (p.service side).new (lookup p s) (p.service that).name).1) :
    s.faults.lookup (p.service that).name = none ∧ registered p s that ≠ [] ∧
      Outdated (p.service that).old (p.service side).new ((p.service side).new.need (p.service that).name) := by
  have fine : s.faults.lookup (p.service that).name = none := by
    cases fault : s.faults.lookup (p.service that).name with
    | none => rfl
    | some err =>
      have failed : lookup p s (p.service that).name = .error err := by
        unfold lookup
        rw [fault]
      unfold unmetOf at mem
      rw [failed] at mem
      exact Unmet.noConfusion (List.mem_singleton.mp mem)
  have some' : registered p s that ≠ [] := by
    intro none'
    unfold unmetOf at mem
    rw [lookupSide fine] at mem
    simp only [if_pos none'] at mem
    exact Unmet.noConfusion (List.mem_singleton.mp mem)
  refine ⟨fine,some',?_⟩
  rw [unmetSide closed fine some'] at mem
  split at mem
  · assumption
  · exact absurd mem List.not_mem_nil

theorem lockedCrossed (locked : LockedOut p s) : Crossed p := by
  have closed : Closed s := locked.forever [] s rfl
  -- what the new release of a side lacks comes from the lookup of the other side
  have about : ∀ side, s.faults.lookup (p.service side.other).name = none ∧ registered p s side.other ≠ [] ∧
      Outdated (p.service side.other).old (p.service side).new
        ((p.service side).new.need (p.service side.other).name) := by
    intro side
    obtain ⟨u,mem⟩ := List.exists_mem_of_ne_nil _ (locked.only side).some'
    obtain ⟨addr,gen,need,rfl,_⟩ := (locked.only side).only u mem
    exact tooOldSide closed (memUnmet mem).1
  intro side
  refine ⟨⟨p.lists side,(about side).2.2⟩,fun own => ?_⟩
  -- its own old instances are registered, the other side waits for them
  obtain ⟨fine,some',_⟩ := about side.other
  rw [otherOther] at fine some'
  have lacks : (unmetOf (p.service side).new (lookup p s) (p.service side).name).1 = _ := unmetSide closed fine some'
  rw [if_pos own.2] at lacks
  obtain ⟨x,inside⟩ := List.exists_mem_of_ne_nil _ some'
  have mem : Unmet.tooOld (p.service side).name x.addr (p.service side).old.selfGen
      ((p.service side).new.need (p.service side).name) ∈ (unmet (p.service side).new (lookup p s)).1 := by
    refine unmetMem (memNames.mpr own.1) ?_
    rw [lacks]
    exact List.mem_map_of_mem inside
  obtain ⟨_,_,_,same,_⟩ := (locked.only side).only _ mem
  exact otherApart (Unmet.tooOld.inj same).1.symm

def rollouts : List Action := [.start .first .new "10.0.0.3:8100",.start .second .new "10.0.0.4:8100"]

def pods : List Replica := [⟨.first,.old,"10.0.0.1:8100",.serving,true⟩,⟨.second,.old,"10.0.0.2:8100",.serving,true⟩]

def newPods : List Replica := [⟨.first,.new,"10.0.0.3:8100",.waiting,true⟩,⟨.second,.new,"10.0.0.4:8100",.waiting,true⟩]

def State.old : State := ⟨fun _ => [⟨"10.0.0.9:8100",[]⟩],[],pods⟩
def State.rolling : State := ⟨fun _ => [⟨"10.0.0.9:8100",[]⟩],[],pods ++ newPods⟩

theorem rollsOut : run (step p) .old rollouts = some .rolling := rfl

theorem rollingClosed : Closed .rolling := by
  unfold Closed
  decide

theorem rollingRegistered : registered p .rolling side =
    [⟨match side with | .first => "10.0.0.1:8100" | .second => "10.0.0.2:8100",(p.service side).old.metadata⟩] := by
  cases side <;> rfl

theorem rollingSome : registered p .rolling side ≠ [] := by
  rw [rollingRegistered]
  exact List.cons_ne_nil _ _

theorem unjudged {name : String} (first : name ≠ (p.service .first).name) (second : name ≠ (p.service .second).name) :
    (unmetOf (p.service side).new (lookup p .rolling) name).1 = [] := by
  have found : lookup p .rolling name = .ok [⟨"10.0.0.9:8100",[]⟩] := by
    unfold lookup
    simp only [State.rolling,List.lookup_nil,if_neg first,if_neg second]
  unfold unmetOf
  rw [found]
  rfl

theorem rollingOnly (crossed : Crossed p) (side : Side) : OnlyOld p .rolling side := by
  refine ⟨holdsUnmet rollingClosed (crossed side).1,fun u mem => ?_⟩
  obtain ⟨inside,asked⟩ := memUnmet mem
  by_cases that : u.name = (p.service side.other).name
  · rw [that,unmetSide rollingClosed rfl rollingSome,if_pos (crossed side).1.2,rollingRegistered] at inside
    cases List.mem_singleton.mp inside
    refine ⟨_,_,_,rfl,?_⟩
    cases side
    · exact ⟨⟨.second,.old,"10.0.0.2:8100",.serving,true⟩,by decide,rfl,rfl,rfl,rfl⟩
    · exact ⟨⟨.first,.old,"10.0.0.1:8100",.serving,true⟩,by decide,rfl,rfl,rfl,rfl⟩
  by_cases own : u.name = (p.service side).name
  · rw [own] at asked inside
    rw [unmetSide rollingClosed rfl rollingSome] at inside
    split at inside
    · rename_i outdated
      exact absurd ⟨memNames.mp asked,outdated⟩ (crossed side).2
    · exact absurd inside List.not_mem_nil
  have none' : (unmetOf (p.service side).new (lookup p .rolling) u.name).1 = [] := by
    cases side
    · exact unjudged own that
    · exact unjudged that own
  rw [none'] at inside
  exact absurd inside List.not_mem_nil

theorem crossedLocks (crossed : Crossed p) : LockedOut p .rolling := by
  refine ⟨fun side => ?_,rollingOnly crossed,fun as t ok => staysClosed (fun side => (crossed side).1) rollingClosed ok⟩
  cases side
  · exact ⟨⟨.first,.new,"10.0.0.3:8100",.waiting,true⟩,by decide,rfl,rfl,rfl⟩
  · exact ⟨⟨.second,.new,"10.0.0.4:8100",.waiting,true⟩,by decide,rfl,rfl,rfl⟩

end Lookups

theorem neverLocked (p : Pair) : (∀ s as t, AllOld s → run (step p) s as = some t → ¬ LockedOut p t) ↔ ¬ Crossed p := by
  constructor
  · intro never crossed
    have old : AllOld .old := by
      unfold AllOld
      decide
    exact never .old rollouts .rolling old rollsOut (crossedLocks crossed)
  · intro apart s as t _ _ locked
    exact apart (lockedCrossed locked)

def introduced : Pair where
  service := fun
    | .first => ⟨"ser-order",⟨"ser-order",6,[],rfl,List.nodup_nil⟩,
        ⟨"ser-order",7,[("ser-user",5)],rfl,List.nodup_singleton _⟩,by decide,rfl⟩
    | .second => ⟨"ser-user",⟨"ser-user",4,[],rfl,List.nodup_nil⟩,
        ⟨"ser-user",5,[("ser-order",7)],rfl,List.nodup_singleton _⟩,by decide,rfl⟩
  apart := by decide
  lists := fun side => by cases side <;> exact List.mem_singleton.mpr rfl

theorem introducedLocked : ¬ ∀ (p : Pair) s as t, AllOld s → run (step p) s as = some t → ¬ LockedOut p t := by
  intro never
  have crossed : Crossed introduced := by
    intro side
    cases side <;> decide +kernel
  have old : AllOld .old := by
    unfold AllOld
    decide
  exact never introduced .old rollouts .rolling old rollsOut (crossedLocks crossed)

end DevkitCommon.Kitexx.IdlDeps
