import DevkitCommon.Lib.Machine
import Mathlib.Data.List.Basic
import Mathlib.Logic.Function.Basic

/-! The permission points of the logins as a PermissionCache remembers them: Points with its
lookup, load and store apart, Invalidate and InvalidateAll, any number of them at once. What
the loader returns stands in the action. -/
namespace DevkitCommon.Hertzx.Permissions
open Machine

def itoa (n : Int) : String := if n = -9223372036854775808 then "-" else toString n

structure Identity where
  realm : String
  uid : Int
  deriving DecidableEq, Repr

def Identity.key (id : Identity) : String := id.realm ++ ":" ++ itoa id.uid

inductive Target where
  | one (id : Identity)
  | all
  deriving DecidableEq, Repr

def Target.hits (key : String) : Target → Bool
  | .one id => id.key == key
  | .all => true

/- began counts the invalidations of the key when the load of the points began; no step
reads it. -/
structure Entry where
  points : List String
  expires : Int
  began : Nat
  deriving DecidableEq, Repr

inductive Point where
  | lookup
  | load
  | loading (began : Nat)
  | store (points : List String) (began : Nat)
  | returned (points : List String) (began : Nat)
  | failed
  deriving DecidableEq, Repr

/- since counts the invalidations of the key that had returned when this Points began. -/
structure Call where
  id : Identity
  since : Nat
  point : Point
  deriving DecidableEq, Repr

/- history records the invalidations. -/
structure State where
  clock : Int
  entries : String → Option Entry
  calls : List Call
  history : List Target

def State.init (clock : Int) : State := ⟨clock,fun _ => none,[],[]⟩

def State.count (s : State) (key : String) : Nat := s.history.countP (Target.hits key)

def State.setCall (s : State) (c : Nat) (call : Call) : State := {s with calls := s.calls.set c call}

inductive Action where
  | tick (d : Nat)
  | points (id : Identity)
  | lookup (c : Nat)
  | begin (c : Nat)
  | load (c : Nat) (points : Option (List String))
  | store (c : Nat)
  | invalidate (target : Target)
  deriving DecidableEq, Repr

section Steps
variable (ttl : Int)

def found (clock : Int) : Option Entry → Point
  | some e => if clock < e.expires then .returned e.points e.began else .load
  | none => .load

def forget (entries : String → Option Entry) : Target → String → Option Entry
  | .one id => Function.update entries id.key none
  | .all => fun _ => none

def step (s : State) : Action → Option State
  | .tick d => some {s with clock := s.clock + d}
  | .points id => some {s with calls := s.calls ++ [⟨id,s.count id.key,.lookup⟩]}
  | .lookup c => do
    let call ← s.calls[c]?
    match call.point with
    | .lookup => some (s.setCall c {call with point := found s.clock (s.entries call.id.key)})
    | _ => none
  | .begin c => do
    let call ← s.calls[c]?
    match call.point with
    | .load => some (s.setCall c {call with point := .loading (s.count call.id.key)})
    | _ => none
  | .load c points => do
    let call ← s.calls[c]?
    match call.point,points with
    | .loading began,some points => some (s.setCall c {call with point := .store points began})
    | .loading _,none => some (s.setCall c {call with point := .failed})
    | _,_ => none
  | .store c => do
    let call ← s.calls[c]?
    match call.point with
    | .store points began => some ({s with
        entries := Function.update s.entries call.id.key (some ⟨points,s.clock + ttl,began⟩)}.setCall c
          {call with point := .returned points began})
    | _ => none
  | .invalidate target => some {s with entries := forget s.entries target,history := s.history ++ [target]}

inductive Does (s : State) : Action → State → Prop where
  | tick (d : Nat) : Does s (.tick d) {s with clock := s.clock + d}
  | points (id : Identity) : Does s (.points id) {s with calls := s.calls ++ [⟨id,s.count id.key,.lookup⟩]}
  | lookup {c call} (its : s.calls[c]? = some call) (here : call.point = .lookup) :
      Does s (.lookup c) (s.setCall c {call with point := found s.clock (s.entries call.id.key)})
  | begin {c call} (its : s.calls[c]? = some call) (here : call.point = .load) :
      Does s (.begin c) (s.setCall c {call with point := .loading (s.count call.id.key)})
  | loads {c call began} (points : List String) (its : s.calls[c]? = some call) (here : call.point = .loading began) :
      Does s (.load c (some points)) (s.setCall c {call with point := .store points began})
  | fails {c call began} (its : s.calls[c]? = some call) (here : call.point = .loading began) :
      Does s (.load c none) (s.setCall c {call with point := .failed})
  | store {c call points began} (its : s.calls[c]? = some call) (here : call.point = .store points began) :
      Does s (.store c) ({s with
        entries := Function.update s.entries call.id.key (some ⟨points,s.clock + ttl,began⟩)}.setCall c
          {call with point := .returned points began})
  | invalidate (target : Target) :
      Does s (.invalidate target) {s with entries := forget s.entries target,history := s.history ++ [target]}

end Steps

variable {ttl : Int} {s t : State} {a : Action}

theorem stepDoes (one : step ttl s a = some t) : Does ttl s a t := by
  cases a <;> simp only [step,bind,Option.bind_eq_some_iff,Option.some.injEq] at one
  case tick d => subst one; exact .tick d
  case points id => subst one; exact .points id
  case lookup c =>
    obtain ⟨call,its,last⟩ := one
    split at last <;> try contradiction
    rename_i here
    cases Option.some.inj last
    exact .lookup its here
  case begin c =>
    obtain ⟨call,its,last⟩ := one
    split at last <;> try contradiction
    rename_i here
    cases Option.some.inj last
    exact .begin its here
  case load c points =>
    obtain ⟨call,its,last⟩ := one
    split at last <;> try contradiction
    · rename_i points here
      cases Option.some.inj last
      exact .loads points its here
    · rename_i here
      cases Option.some.inj last
      exact .fails its here
  case store c =>
    obtain ⟨call,its,last⟩ := one
    split at last <;> try contradiction
    rename_i here
    cases Option.some.inj last
    exact .store its here
  case invalidate target => subst one; exact .invalidate target

def Point.gave : Point → Option Nat
  | .returned _ began => some began
  | _ => none

def Fresh (s : State) : Prop := ∀ call ∈ s.calls, ∀ began ∈ call.point.gave, call.since ≤ began

def Point.loaded : Point → Option Nat
  | .loading began | .store _ began | .returned _ began => some began
  | _ => none

def Orderly (s : State) : Action → Prop
  | .store c => ∀ call ∈ s.calls[c]?, ∀ began ∈ call.point.loaded, s.count call.id.key ≤ began
  | _ => True

instance decidableOrderly (s : State) (a : Action) : Decidable (Orderly s a) := by
  unfold Orderly
  cases a <;> infer_instance

instance decidableFresh (s : State) : Decidable (Fresh s) := by unfold Fresh; infer_instance

structure Current (s : State) : Prop where
  entries : ∀ {key e}, s.entries key = some e → s.count key ≤ e.began
  calls : ∀ {c : Nat} {call : Call}, s.calls[c]? = some call →
    call.since ≤ s.count call.id.key ∧ ∀ began ∈ call.point.loaded, call.since ≤ began

theorem forgotten {target : Target} {key : String} (entries : String → Option Entry) (hits : target.hits key = true) :
    forget entries target key = none := by
  cases target with
  | all => rfl
  | one id =>
    cases eq_of_beq hits
    exact Function.update_self ..

theorem remembered {target : Target} {key : String} (entries : String → Option Entry) (misses : target.hits key = false) :
    forget entries target key = entries key := by
  cases target with
  | all => cases misses
  | one id => exact Function.update_of_ne (Ne.symm (ne_of_beq_false misses)) ..

theorem counted (s : State) (target : Target) (key : String) (entries : String → Option Entry) :
    State.count {s with entries := entries,history := s.history ++ [target]} key =
      s.count key + if target.hits key then 1 else 0 := by
  rw [State.count,List.countP_append,List.countP_singleton]
  rfl

theorem currentSet {c : Nat} {call next : Call} (inv : Current s) (its : s.calls[c]? = some call)
    (same : next.id = call.id) (since : next.since = call.since)
    (loaded : ∀ began ∈ next.point.loaded, call.since ≤ began) : Current (s.setCall c next) where
  entries := inv.entries
  calls := by
    intro i other mem
    obtain ⟨-,rfl⟩ | ⟨-,mem⟩ := setFound mem
    · rw [same,since]
      exact ⟨(inv.calls its).1,loaded⟩
    · exact inv.calls mem

theorem stepCurrent (inv : Current s) (orderly : Orderly s a) (one : step ttl s a = some t) : Current t := by
  cases stepDoes one with
  | tick d => exact ⟨inv.entries,inv.calls⟩
  | points id =>
    refine ⟨inv.entries,?_⟩
    intro i other mem
    obtain mem | ⟨-,rfl⟩ := concatFrom mem
    · exact inv.calls mem
    · exact ⟨Nat.le_refl _,fun _ began => by cases began⟩
  | @lookup c call its here =>
    refine currentSet inv its rfl rfl fun began loaded => ?_
    dsimp only at loaded
    unfold found at loaded
    split at loaded
    · rename_i e entry
      split at loaded
      · cases Option.some.inj loaded
        exact Nat.le_trans (inv.calls its).1 (inv.entries entry)
      · cases loaded
    · cases loaded
  | @begin c call its here =>
    refine currentSet inv its rfl rfl fun began loaded => ?_
    cases Option.some.inj loaded
    exact (inv.calls its).1
  | @loads c call before points its here =>
    refine currentSet inv its rfl rfl fun began loaded => ?_
    cases Option.some.inj loaded
    exact (inv.calls its).2 before (by rw [here]; rfl)
  | @fails c call before its here =>
    exact currentSet inv its rfl rfl fun began loaded => by cases loaded
  | @store c call points before its here =>
    have moved : Current (s.setCall c {call with point := .returned points before}) := by
      refine currentSet inv its rfl rfl fun began loaded => ?_
      cases Option.some.inj loaded
      exact (inv.calls its).2 before (by rw [here]; rfl)
    refine ⟨?_,moved.calls⟩
    intro key e entry
    change Function.update s.entries call.id.key (some ⟨points,s.clock + ttl,before⟩) key = some e at entry
    by_cases same : key = call.id.key
    · subst same
      rw [Function.update_self] at entry
      cases Option.some.inj entry
      exact orderly call its before (by rw [here]; rfl)
    · rw [Function.update_of_ne same] at entry
      exact inv.entries entry
  | invalidate target =>
    constructor
    · intro key e entry
      rw [counted]
      cases hits : target.hits key with
      | true => cases (forgotten s.entries hits).symm.trans entry
      | false => exact inv.entries ((remembered s.entries hits).symm.trans entry)
    · intro i other mem
      obtain ⟨since,loaded⟩ := inv.calls mem
      rw [counted]
      exact ⟨Nat.le_add_right_of_le since,loaded⟩

theorem initCurrent (clock : Int) : Current (State.init clock) where
  entries := fun entry => by cases entry
  calls := fun mem => by simp [State.init] at mem

theorem permissionsFresh {ttl clock : Int} {as : List Action} {t : State}
    (orderly : Along (step ttl) Orderly (State.init clock) as) (ok : run (step ttl) (State.init clock) as = some t) :
    Fresh t := by
  have inv := runKeeps stepCurrent (initCurrent clock) orderly ok
  intro call mem began gave
  obtain ⟨c,its⟩ := List.mem_iff_getElem?.mp mem
  refine (inv.calls its).2 began ?_
  cases point : call.point <;> rw [point] at gave <;> first | exact gave | cases gave

def roleChanged : List Action :=
  [.points ⟨"admin",7⟩,.lookup 0,.begin 0,.load 0 (some ["*"]),.store 0,.invalidate .all,
    .points ⟨"admin",7⟩,.lookup 1,.begin 1,.load 1 (some []),.store 1]

theorem roleFresh : ∃ t, run (step 30) (State.init 0) roleChanged = some t ∧ Fresh t := by
  have runs : (run (step 30) (State.init 0) roleChanged).isSome = true := by decide
  obtain ⟨t,ok⟩ := Option.isSome_iff_exists.mp runs
  exact ⟨t,ok,permissionsFresh (by decide) ok⟩

def invalidatedMeanwhile : List Action :=
  [.points ⟨"admin",7⟩,.lookup 0,.begin 0,.load 0 (some ["*"]),.invalidate (.one ⟨"admin",7⟩),.store 0,
    .points ⟨"admin",7⟩,.lookup 1]

theorem storedAfterwards : ¬∀ (ttl clock : Int) (as : List Action) (t : State),
    run (step ttl) (State.init clock) as = some t → Fresh t := by
  intro all
  have facts : (run (step 30) (State.init 0) invalidatedMeanwhile).map (fun t => decide (Fresh t)) = some false := by
    decide
  obtain ⟨t,ok,stale⟩ := Option.map_eq_some_iff.mp facts
  exact of_decide_eq_false stale (all 30 0 invalidatedMeanwhile t ok)

end DevkitCommon.Hertzx.Permissions
