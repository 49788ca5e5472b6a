import DevkitCommon.Redisx.Lock
import Mathlib.Data.List.Basic

/-! Mutual exclusion of the lock. An extend that fails leaves fn's context as it is, and a
SETNX that got the key is believed however late its answer comes, so the law rests on the
key outliving the time between two commands of the call that Redis took. -/
namespace DevkitCommon.Redisx
open Machine Redis

def Call.holds (call : Call) : Bool := call.point == .running && !call.cancelled

def Exclusive (s : State) : Prop :=
  ∀ (i j : Nat) (x y : Call), s.calls[i]? = some x → s.calls[j]? = some y →
    x.holds = true → y.holds = true → x.request.name = y.request.name → i = j

def Point.claims : Point → Bool
  | .running | .asked (some true) => true
  | _ => false

def Call.claims (call : Call) : Bool := call.point.claims && !call.cancelled

def OnTime (s : State) (_ : Action) : Prop :=
  ∀ call ∈ s.calls, call.point = .running → call.keeper = .idle →
    s.clock*millisecond ≤ call.fired*millisecond + call.request.lockTTL / 3
instance (s : State) (a : Action) : Decidable (OnTime s a) := by unfold OnTime; infer_instance

def sure (s : State) : Action → Bool
  | .setNX c reply => !reply.ran || (s.calls[c]?).all (fun call => s.calls.all (fun other =>
      !(other.claims && other.request.name == call.request.name) ||
        decide (s.clock < other.extended + other.request.lasts)))
  | .drop name => s.calls.all (fun other => !(other.claims && other.request.name == name))
  | _ => true

def Sure (s : State) (a : Action) : Prop := sure s a = true
instance (s : State) (a : Action) : Decidable (Sure s a) := by unfold Sure; infer_instance

def Held (s : State) : Prop :=
  ∀ (i : Nat) (call : Call), s.calls[i]? = some call → call.claims = true →
    s.keys call.request.name = some ⟨i,some (call.extended + call.request.lasts)⟩

section Moves
variable (env : Env) (s : State)

inductive Moves (c : Nat) (call : Call) : Action → Call → Store String Nat → Prop where
  | tries {reply call'} (here : call.point = .setNX) (name : call'.request = call.request)
      (claims : call'.claims = true → get s.keys s.clock call.request.name = none ∧ reply.ran = true ∧
        call'.extended = s.clock) :
      Moves c call (.setNX c reply) call'
        (if reply.ran then setNX s.keys s.clock call.request.name c call.request.lockTTL else s.keys)
  | prolongs {reply call'} (ran : reply.ran = true) (same : call'.request = call.request)
      (claims : call'.claims = call.claims)
      (extended : call'.extended = if (expireIf s.keys s.clock call.request.name c call.request.lockTTL).2
        then s.clock else call.extended) :
      Moves c call (.extend c reply) call'
        (expireIf s.keys s.clock call.request.name c call.request.lockTTL).1
  | releases {reply failed call'} (here : call.point = .release failed) (ends : call'.claims = false) :
      Moves c call (.release c reply) call'
        (if reply.ran then delIf s.keys s.clock call.request.name c else s.keys)
  | other {a call'} (same : call'.request = call.request) (extended : call'.extended = call.extended)
      (claims : call'.claims = true → call.claims = true) : Moves c call a call' s.keys

inductive Does : Action → State → Prop where
  | tick (d : Nat) : Does (.tick d) {s with clock := s.clock + d}
  | call (r : Request) : Does (.call r) {s with
      calls := s.calls ++ [⟨r,s.clock,first env r,.idle,s.clock,false,false,false,s.clock⟩]}
  | move {a c call call' keys} (found : s.calls[c]? = some call) (moves : Moves s c call a call' keys) :
      Does a ({s with keys := keys}.setCall c call')
  | drop (name : String) : Does (.drop name) {s with keys := del s.keys name}

end Moves

variable {env : Env} {s t : State} {a : Action} {reply : Reply} {c i : Nat}
  {call call' : Call} {keys : Store String Nat}

theorem claimsExact : call.claims = true ↔ call.point.claims = true ∧ call.cancelled = false := by
  simp only [Call.claims,Bool.and_eq_true,Bool.not_eq_true']

theorem holdsClaims (holds : call.holds = true) : call.claims = true := by
  obtain ⟨runs,on⟩ := Bool.and_eq_true_iff.mp holds
  simp only [Call.claims,beq_iff_eq.mp runs,Point.claims,on,Bool.and_self]

theorem triedClaims {res : Option Bool} (claims : (tried s call res).claims = true) :
    (Point.asked res).claims = true := by
  unfold tried at claims
  split at claims
  · contradiction
  · rfl
  · split at claims <;> contradiction

theorem stepDoes (one : step env s a = some t) : Does env s a t := by
  cases a <;> simp only [step,bind,Option.bind_eq_some_iff,Option.some.injEq] at one
  case tick d => subst one; exact .tick d
  case call r => subst one; exact .call r
  case drop name => subst one; exact .drop name
  case setNX c reply =>
    obtain ⟨call,found,last⟩ := one
    split at last <;> try contradiction
    rename_i here
    cases Option.some.inj last
    refine .move found (.tries here rfl (fun claims => ?_))
    have got := (claimsExact.mp claims).1
    simp only at got
    split at got <;> try contradiction
    rename_i ok
    cases free : get s.keys s.clock call.request.name with
    | none => exact ⟨rfl,by rw [ok]; rfl,rfl⟩
    | some v =>
      rw [free] at got
      contradiction
  case answer c =>
    obtain ⟨call,found,last⟩ := one
    split at last <;> try contradiction
    rename_i res here
    cases Option.some.inj last
    refine .move found (.other rfl rfl (fun claims => ?_))
    obtain ⟨got,on⟩ := claimsExact.mp claims
    exact claimsExact.mpr ⟨by rw [here]; exact triedClaims got,on⟩
  case wake c =>
    obtain ⟨call,found,last⟩ := one
    split at last <;> try contradiction
    split at last <;> try contradiction
    cases Option.some.inj last
    exact .move found (.other rfl rfl (fun claims => Bool.noConfusion (claimsExact.mp claims).1))
  case giveUp c =>
    obtain ⟨call,found,last⟩ := one
    split at last <;> try contradiction
    split at last <;> try contradiction
    cases Option.some.inj last
    exact .move found (.other rfl rfl (fun claims => Bool.noConfusion (claimsExact.mp claims).1))
  case fire c =>
    obtain ⟨call,found,last⟩ := one
    split at last <;> try contradiction
    all_goals
      cases Option.some.inj last
      exact .move found (.other rfl rfl (fun claims => claims))
  case extend c reply =>
    obtain ⟨call,found,last⟩ := one
    split at last <;> try contradiction
    split at last <;> rename_i ran <;> cases Option.some.inj last
    · exact .move found (.prolongs ran rfl rfl rfl)
    · exact .move found (.other rfl rfl (fun claims => claims))
  case notice c =>
    obtain ⟨call,found,last⟩ := one
    split at last <;> try contradiction
    · cases Option.some.inj last
      exact .move found (.other rfl rfl (fun claims => Bool.noConfusion (claimsExact.mp claims).2))
    · cases Option.some.inj last
      exact .move found (.other rfl rfl (fun claims => claims))
  case ctxDone c =>
    obtain ⟨call,found,last⟩ := one
    cases last
    exact .move found (.other rfl rfl (fun claims => Bool.noConfusion (claimsExact.mp claims).2))
  case finish c failed =>
    obtain ⟨call,found,last⟩ := one
    split at last <;> try contradiction
    cases Option.some.inj last
    exact .move found (.other rfl rfl (fun claims => Bool.noConfusion (claimsExact.mp claims).1))
  case stop c =>
    obtain ⟨call,found,last⟩ := one
    split at last <;> try contradiction
    all_goals
      cases Option.some.inj last
      exact .move found (.other rfl rfl (fun claims => Bool.noConfusion (claimsExact.mp claims).1))
  case release c reply =>
    obtain ⟨call,found,last⟩ := one
    split at last <;> try contradiction
    rename_i failed here
    cases Option.some.inj last
    exact .move found (.releases here rfl)
  case crash c =>
    obtain ⟨call,found,last⟩ := one
    split at last <;> try contradiction
    cases Option.some.inj last
    exact .move found (.other rfl rfl (fun claims => Bool.noConfusion (claimsExact.mp claims).1))

theorem lastsPositive (r : Request) : 0 < r.lasts := by
  unfold Request.lasts Request.lockTTL second millisecond
  split <;> omega

theorem lockLapse {r : Request} {now : Int} : setLapse now r.lockTTL none = some (now + r.lasts) := by
  have positive := lastsPositive r
  have whole : 0 < r.lockTTL := by
    unfold Request.lockTTL second
    split <;> omega
  rw [setLapsePositive whole,show max 1 (r.lockTTL / millisecond) = max 1 r.lasts from rfl,
    show max 1 r.lasts = r.lasts by omega]

theorem otherKept (moves : Moves s c call a call' keys) (other : i ≠ c) {k : String} {lapses : Option Int}
    (raw : s.keys k = some ⟨i,lapses⟩)
    (live : call.request.name = k → ∀ reply, a = .setNX c reply → reply.ran = true →
      Entry.live s.clock (⟨i,lapses⟩ : Entry Nat) = true) :
    keys k = s.keys k := by
  have names : k = call.request.name ∨ k ≠ call.request.name := Decidable.em _
  rcases names with rfl | differs
  · cases moves with
    | tries =>
      split
      · rename_i ran
        rw [setNXTaken raw (live rfl _ rfl ran)]
      · rfl
    | prolongs => rw [expireIfForeign raw other]
    | releases =>
      split
      · rw [delIfForeign raw other]
      · rfl
    | other => rfl
  · cases moves with
    | tries =>
      split
      · exact setNXOther differs
      · rfl
    | prolongs => exact expireIfOther differs
    | releases =>
      split
      · exact delIfOther differs
      · rfl
    | other => rfl

theorem ownKept (inv : Held s) (found : s.calls[c]? = some call) (moves : Moves s c call a call' keys)
    (claims : call'.claims = true) :
    keys call'.request.name = some ⟨c,some (call'.extended + call'.request.lasts)⟩ := by
  cases moves with
  | tries here same free =>
    obtain ⟨missing,ran,extended⟩ := free claims
    have sets : ¬ (refused call.request.lockTTL = true ∨
        (get s.keys s.clock call.request.name).isSome = true) := by
      have above : 0 < call.request.lasts := lastsPositive _
      rw [missing]
      simp only [refused,decide_eq_true_eq,Option.isSome_none,Bool.false_eq_true,or_false]
      unfold Request.lasts millisecond at above
      omega
    rw [if_pos ran,same,extended,setNX,if_neg sets,Function.update_self,lockLapse]
  | prolongs ran same before extended =>
    have raw := inv c call found (before ▸ claims)
    have own : expireIf s.keys s.clock _ _ _ = _ := expireIfOwn (lastsPositive call.request) raw
    rw [same,extended]
    simp only at own
    rw [own]
    split
    · simp only [Function.update_self,if_true,Request.lasts]
    · exact raw
  | releases here ends => exact absurd (claims.symm.trans ends) (by decide)
  | other same extended before =>
    rw [same,extended]
    exact inv c call found (before claims)

theorem sureLive (sure : Sure s (.setNX c reply)) (ran : reply.ran = true) (found : s.calls[c]? = some call)
    {i : Nat} {other : Call} (there : s.calls[i]? = some other) (claims : other.claims = true)
    (same : call.request.name = other.request.name) : s.clock < other.extended + other.request.lasts := by
  simp only [Sure,Redisx.sure,ran,found,Option.all_some,List.all_eq_true,Bool.or_eq_true,Bool.not_eq_true',
    Bool.not_true,Bool.false_or,decide_eq_true_eq] at sure
  refine (sure other (List.mem_of_getElem? there)).resolve_left ?_
  simp only [claims,same,beq_self_eq_true,Bool.and_self,Bool.true_eq_false,not_false_eq_true]

theorem heldStep (inv : Held s) (sure : Sure s a) (does : Does env s a t) : Held t := by
  intro i now found claims
  cases does with
  | tick d => exact inv i now found claims
  | call r =>
    rw [List.getElem?_append] at found
    split at found
    · exact inv i now found claims
    · cases List.mem_singleton.mp (List.mem_of_getElem? found)
      have starts := (claimsExact.mp claims).1
      simp only [first] at starts
      split at starts <;> try contradiction
      split at starts <;> contradiction
  | drop name =>
    have spared : now.request.name ≠ name := by
      rintro rfl
      simp only [Sure,Redisx.sure,List.all_eq_true,Bool.not_eq_true'] at sure
      have idle := sure now (List.mem_of_getElem? found)
      simp only [claims,beq_self_eq_true,Bool.and_self,Bool.true_eq_false] at idle
    exact (delOther spared).trans (inv i now found claims)
  | @move _ c call call' keys here moves =>
    have short := (List.getElem?_eq_some_iff.mp here).1
    by_cases same : c = i
    · subst same
      simp only [State.setCall,List.getElem?_set_self short,Option.some.injEq] at found
      subst found
      exact ownKept inv here moves claims
    · simp only [State.setCall,List.getElem?_set_ne same] at found
      have raw := inv i now found claims
      refine (otherKept moves (Ne.symm same) raw (fun name reply what ran => ?_)).trans raw
      subst what
      simpa only [Entry.live,Option.all_some,decide_eq_true_eq] using sureLive sure ran here found claims name

theorem heldExclusive (inv : Held s) : Exclusive s := by
  intro i j x y hx hy holdsX holdsY same
  have one := inv i x hx (holdsClaims holdsX)
  rw [same,inv j y hy (holdsClaims holdsY)] at one
  exact (congrArg Entry.value (Option.some.inj one)).symm

theorem lockExclusive (env : Env) (clock : Int) (as : List Action) (s : State)
    (extended : Along (step env) Sure (State.init clock) as)
    (ok : run (step env) (State.init clock) as = some s) : Exclusive s := by
  have empty : Held (State.init clock) := fun _ _ found => nomatch found
  exact heldExclusive (runKeeps (fun inv sure one => heldStep inv sure (stepDoes one)) empty extended ok)

def settle : Request := ⟨"settle:1",9*second,0,0⟩

def oneHiccup : List Action :=
  [.call settle,.setNX 0 .ok,.tick 2000,.answer 0,.tick 3000,.fire 0,.extend 0 .failed,.notice 0,
    .tick 3000,.fire 0,.extend 0 .ok,.notice 0,.call settle,.setNX 1 .ok,.answer 1,
    .tick 3000,.finish 0 false,.stop 0,.release 0 .ok,.call settle,.setNX 2 .ok,.answer 2]

theorem hiccupExclusive : ∃ s, run (step ⟨true⟩) (State.init 0) oneHiccup = some s ∧
    s.calls.map Call.holds = [false,false,true] ∧ Exclusive s := by
  have facts : (run (step ⟨true⟩) (State.init 0) oneHiccup).map (fun s => s.calls.map Call.holds) =
      some [false,false,true] := by decide
  obtain ⟨s,ok,holds⟩ := Option.map_eq_some_iff.mp facts
  exact ⟨s,ok,holds,lockExclusive ⟨true⟩ 0 oneHiccup s (by decide) ok⟩

/- Every tick on time, every extend an error: after nine seconds the key has lapsed, the
next caller gets it, and nobody has told the first fn. -/
def redisAway : List Action :=
  [.call settle,.setNX 0 .ok,.answer 0,.tick 3000,.fire 0,.extend 0 .failed,.notice 0,
    .tick 3000,.fire 0,.extend 0 .failed,.notice 0,.tick 3000,.fire 0,.extend 0 .failed,.notice 0,
    .call settle,.setNX 1 .ok,.answer 1]

theorem bothRunning : ¬ ∀ env clock as s, Along (step env) OnTime (State.init clock) as →
    run (step env) (State.init clock) as = some s → Exclusive s := by
  intro exclusive
  have facts : (run (step ⟨true⟩) (State.init 0) redisAway).map
      (fun s => s.calls.map (fun call => (call.holds,call.request))) =
      some [(true,settle),(true,settle)] := by decide
  obtain ⟨s,ok,same⟩ := Option.map_eq_some_iff.mp facts
  have onTime : Along (step ⟨true⟩) OnTime (State.init 0) redisAway := by decide
  have at' : ∀ i, i < 2 → ∃ call, s.calls[i]? = some call ∧ call.holds = true ∧ call.request = settle := by
    intro i short
    have here := congrArg (fun l => l[i]?) same
    simp only [List.getElem?_map] at here
    match i,short with
    | 0,_ | 1,_ =>
      obtain ⟨call,found,both⟩ := Option.map_eq_some_iff.mp here
      exact ⟨call,found,congrArg Prod.fst both,congrArg Prod.snd both⟩
  obtain ⟨x,hx,holdsX,nameX⟩ := at' 0 (by decide)
  obtain ⟨y,hy,holdsY,nameY⟩ := at' 1 (by decide)
  have one := exclusive ⟨true⟩ 0 redisAway s onTime ok 0 1 x y hx hy holdsX holdsY (by rw [nameX,nameY])
  contradiction

end DevkitCommon.Redisx
