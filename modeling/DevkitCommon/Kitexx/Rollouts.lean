import DevkitCommon.Kitexx.IdlOrder
import DevkitCommon.Lib.Machine
import DevkitCommon.Lib.Pairs
import Mathlib

/-! The rollouts of any number of services: pods of their releases start, check the gate, open and stop in any
order. What a release calls is new enough for it, and releases that do not call each other in a circle need no
order. -/
namespace DevkitCommon.Kitexx.Rollouts
open IdlDeps Machine

inductive Phase where
  | waiting
  | serving
  | gone
  deriving DecidableEq, Repr

/- service: what it registers as. usable: Nacos lists it as healthy and enabled. -/
structure Pod where
  service : String
  release : IDLDeps
  addr : String
  phase : Phase
  usable : Bool
  deriving DecidableEq

def Pod.listed (p : Pod) : Bool := p.phase = .serving && p.usable

def Pod.instance' (p : Pod) : Instance := ⟨p.addr,p.release.metadata⟩

/- faults: the names whose lookup fails at the moment. -/
structure State where
  faults : List (String × String)
  pods : List Pod
  deriving DecidableEq

def registered (s : State) (name : String) : List Instance :=
  (s.pods.filter (fun p => p.service = name && p.listed)).map Pod.instance'

def lookup (s : State) : Lookup := fun name => match s.faults.lookup name with
  | some err => .error err
  | none => .ok (registered s name)

inductive Action where
  | faults (fs : List (String × String))
  | start (service : String) (release : IDLDeps) (addr : String)
  | check (i : Nat)
  | health (i : Nat) (usable : Bool)
  | stop (i : Nat)

def step (s : State) : Action → Option State
  | .faults fs => some {s with faults := fs}
  | .start service release addr => some {s with pods := s.pods ++ [⟨service,release,addr,.waiting,true⟩]}
  | .check i => do
    let p ← s.pods[i]?
    if p.phase ≠ .waiting then none
    else if opens p.release (lookup s) then some {s with pods := s.pods.set i {p with phase := .serving}}
    else some s
  | .health i usable => do
    let p ← s.pods[i]?
    some {s with pods := s.pods.set i {p with usable := usable}}
  | .stop i => do
    let p ← s.pods[i]?
    some {s with pods := s.pods.set i {p with phase := .gone}}

inductive Does (s : State) : Action → State → Prop where
  | faults (fs : List (String × String)) : Does s (.faults fs) {s with faults := fs}
  | start (service : String) (release : IDLDeps) (addr : String) :
      Does s (.start service release addr) {s with pods := s.pods ++ [⟨service,release,addr,.waiting,true⟩]}
  | opens {i : Nat} {p : Pod} (found : s.pods[i]? = some p) (waits : p.phase = .waiting)
      (passes : opens p.release (lookup s) = true) :
      Does s (.check i) {s with pods := s.pods.set i {p with phase := .serving}}
  | sleeps {i : Nat} {p : Pod} (found : s.pods[i]? = some p) (waits : p.phase = .waiting)
      (closed : opens p.release (lookup s) = false) : Does s (.check i) s
  | health {i : Nat} {p : Pod} {usable : Bool} (found : s.pods[i]? = some p) :
      Does s (.health i usable) {s with pods := s.pods.set i {p with usable := usable}}
  | stop {i : Nat} {p : Pod} (found : s.pods[i]? = some p) :
      Does s (.stop i) {s with pods := s.pods.set i {p with phase := .gone}}

section Steps
variable {s t : State} {a : Action}

theorem stepDoes (one : step s a = some t) : Does s a t := by
  cases a with
  | faults fs =>
    cases Option.some.inj one
    exact .faults fs
  | start service release addr =>
    cases Option.some.inj one
    exact .start service release addr
  | check i =>
    simp only [step,bind,Option.bind_eq_some_iff] at one
    obtain ⟨p,found,last⟩ := one
    split at last <;> try contradiction
    rename_i waits
    have waits : p.phase = .waiting := by simpa using waits
    split at last
    · rename_i passes
      cases Option.some.inj last
      exact .opens found waits passes
    · rename_i closed
      cases Option.some.inj last
      exact .sleeps found waits (by simpa using closed)
  | health i usable =>
    simp only [step,bind,Option.bind_eq_some_iff] at one
    obtain ⟨p,found,last⟩ := one
    cases Option.some.inj last
    exact .health found
  | stop i =>
    simp only [step,bind,Option.bind_eq_some_iff] at one
    obtain ⟨p,found,last⟩ := one
    cases Option.some.inj last
    exact .stop found

theorem memRegistered {name : String} {x : Instance} :
    x ∈ registered s name ↔ ∃ p ∈ s.pods, p.service = name ∧ p.listed = true ∧ p.instance' = x := by
  unfold registered
  simp only [List.mem_map,List.mem_filter,Bool.and_eq_true,decide_eq_true_eq,and_assoc]

theorem lookupFine {name : String} (fine : s.faults.lookup name = none) : lookup s name = .ok (registered s name) := by
  unfold lookup
  rw [fine]

theorem opensJudged {d : IDLDeps} {name : String} (named : d.self ≠ "") (passes : opens d (lookup s) = true)
    (asked : name ∈ d.depNames) :
    registered s name ≠ [] ∧ (judge d name (d.need name) (registered s name)).1 = [] := by
  have some' : d.deps ≠ [] := by
    intro none'
    have mem := memNames.mp asked
    rw [none'] at mem
    exact absurd mem List.not_mem_nil
  have empty : d.empty = false := beq_eq_false_iff_ne.mpr named
  have all : (unmet d (lookup s)).1 = [] := by
    simpa [opens,empty,some'] using passes
  have none' : (unmetOf d (lookup s) name).1 = [] := by
    refine List.eq_nil_iff_forall_not_mem.mpr (fun u mem => ?_)
    have more := unmetMem asked mem
    rw [all] at more
    exact absurd more List.not_mem_nil
  cases fine : s.faults.lookup name with
  | some err =>
    have failed : lookup s name = .error err := by
      unfold lookup
      rw [fine]
    unfold unmetOf at none'
    rw [failed] at none'
    exact absurd none' (List.cons_ne_nil _ _)
  | none =>
    have found := (unmetListed (d := d) (lookupFine fine)).not.mp (not_not_intro none')
    rw [not_or,not_not] at found
    exact found

theorem memSet {i : Nat} {p x y : Pod} (found : s.pods[i]? = some p) (mem : y ∈ s.pods.set i x) :
    y ∈ s.pods ∨ y = x ∧ p ∈ s.pods :=
  (List.mem_or_eq_of_mem_set mem).imp_right (fun same => ⟨same,List.mem_of_getElem? found⟩)

theorem setMem {i : Nat} {p x y : Pod} (found : s.pods[i]? = some p) (mem : y ∈ s.pods) :
    y ∈ s.pods.set i x ∨ y = p ∧ x ∈ s.pods.set i x := by
  obtain ⟨j,at'⟩ := List.getElem?_of_mem mem
  obtain ⟨rfl,here⟩ | ⟨_,there⟩ := setStays (a := x) (i := i) at'
  · exact .inr ⟨Option.some.inj (at'.symm.trans found),List.mem_of_getElem? here⟩
  · exact .inl (List.mem_of_getElem? there)

end Steps
section Callees

def Apart (pods : List Pod) : Prop := ∀ p ∈ pods, p.release.self ≠ "" ∧
  ∀ q ∈ pods, q.service ∈ p.release.depNames → containsName q.release.joined p.release.self = false
instance (pods : List Pod) : Decidable (Apart pods) := by unfold Apart; infer_instance

def Forward (s : State) (p : Pod) : Prop :=
  (∃ k ∈ s.pods, k.service = p.service ∧ k.listed = true ∧ k.release.selfGen ≤ p.release.selfGen) ∨
    ∀ k ∈ s.pods, k.service = p.service → k.phase ≠ .waiting → k.release.selfGen ≤ p.release.selfGen
instance (s : State) (p : Pod) : Decidable (Forward s p) := by unfold Forward; infer_instance

def Onward (s : State) : Action → Prop
  | .start service release addr => Apart (s.pods ++ [⟨service,release,addr,.waiting,true⟩])
  | .check i => ∀ p ∈ s.pods[i]?, opens p.release (lookup s) = true → Forward s p
  | .health i usable => ∀ p ∈ s.pods[i]?, usable = true → p.phase = .serving → Forward s p
  | .faults _ | .stop _ => True
instance (s : State) : ∀ a, Decidable (Onward s a)
  | .start _ _ _ => by unfold Onward; infer_instance
  | .check _ => by unfold Onward; infer_instance
  | .health _ _ => by unfold Onward; infer_instance
  | .faults _ | .stop _ => isTrue trivial

structure Calls (s : State) (p : Pod) (name : String) : Prop where
  listed : ∀ q ∈ s.pods, q.service = name → q.listed = true → p.release.need name ≤ q.release.selfGen
  known : ∃ q ∈ s.pods, q.service = name ∧ q.phase ≠ .waiting ∧ p.release.need name ≤ q.release.selfGen

structure Fresh (s : State) : Prop where
  apart : Apart s.pods
  calls : ∀ p ∈ s.pods, p.phase = .serving → ∀ name ∈ p.release.depNames, Calls s p name

variable {s t : State} {a : Action} {p q x : Pod} {name : String} {i : Nat}

theorem instanceOld (named : q.release.self ≠ "") (need : Int) :
    tooOld need q.instance' = decide (q.release.selfGen < need) := by
  unfold tooOld Pod.instance'
  simp only [gensSelf named,Option.bind_some,Text.parseFormat q.release.small]

theorem instancePlain {d : IDLDeps} (named : q.release.self ≠ "") (apart : containsName q.release.joined d.self = false) :
    cyclic d q.instance' = false := by
  unfold cyclic Pod.instance'
  simp only [listsJoined named,apart,Bool.and_false]

theorem opensCalls (apart : Apart s.pods) (mem : p ∈ s.pods) (passes : opens p.release (lookup s) = true)
    (asked : name ∈ p.release.depNames) : Calls s p name := by
  obtain ⟨some',none'⟩ := opensJudged (apart p mem).1 passes asked
  have plain : ∀ y ∈ registered s name, cyclic p.release y = false := by
    intro y listed
    obtain ⟨q,inside,service,_,rfl⟩ := memRegistered.mp listed
    exact instancePlain (apart q inside).1 ((apart p mem).2 q inside (service ▸ asked))
  have enough : ∀ q ∈ s.pods, q.service = name → q.listed = true → p.release.need name ≤ q.release.selfGen := by
    intro q inside service listed
    have here := memRegistered.mpr ⟨q,inside,service,listed,rfl⟩
    refine Int.not_lt.mp (fun lower => (judgePlain plain).mpr ⟨_,here,?_⟩ none')
    rw [instanceOld (apart q inside).1]
    exact decide_eq_true lower
  obtain ⟨y,listed⟩ := List.exists_mem_of_ne_nil _ some'
  obtain ⟨q,inside,service,here,_⟩ := memRegistered.mp listed
  refine ⟨enough,q,inside,service,fun waits => ?_,enough q inside service here⟩
  simp [Pod.listed,waits] at here

theorem freshSet (fresh : Fresh s) (found : s.pods[i]? = some p) (service : x.service = p.service)
    (release : x.release = p.release) (later : p.phase ≠ .waiting → x.phase ≠ .waiting)
    (newly : x.listed = true → p.listed = true ∨ Forward s p)
    (opened : x.phase = .serving → ∀ name ∈ p.release.depNames, Calls s p name) :
    Fresh {s with pods := s.pods.set i x} := by
  have inside : p ∈ s.pods := List.mem_of_getElem? found
  have was : ∀ y ∈ s.pods.set i x, ∃ z ∈ s.pods, z.service = y.service ∧ z.release = y.release := by
    intro y mem
    obtain old | ⟨rfl,_⟩ := memSet found mem
    · exact ⟨y,old,rfl,rfl⟩
    · exact ⟨p,inside,service.symm,release.symm⟩
  have apart : Apart (s.pods.set i x) := by
    intro y mem
    obtain ⟨z,old,_,same⟩ := was y mem
    refine ⟨same ▸ (fresh.apart z old).1,fun y' mem' asked => ?_⟩
    obtain ⟨z',old',service',same'⟩ := was y' mem'
    rw [← same,← service'] at asked
    rw [← same,← same']
    exact (fresh.apart z old).2 z' old' asked
  -- a pod that serves now: what it called before, it still calls
  have keeps {y : Pod} {name : String} (calls : Calls s y name) : Calls {s with pods := s.pods.set i x} y name := by
    constructor
    · intro q mem here listed
      obtain old | ⟨rfl,_⟩ := memSet found mem
      · exact calls.listed q old here listed
      · rw [release]
        obtain before | ⟨k,at',same,there,less⟩ | all := newly listed
        · exact calls.listed p inside (service ▸ here) before
        · exact Int.le_trans (calls.listed k at' (same.trans (service ▸ here)) there) less
        · obtain ⟨k,at',same,waits,enough⟩ := calls.known
          exact Int.le_trans enough (all k at' (same.trans (service ▸ here).symm) waits)
    · obtain ⟨q,old,here,waits,enough⟩ := calls.known
      obtain mem | ⟨rfl,mem⟩ := setMem (x := x) found old
      · exact ⟨q,mem,here,waits,enough⟩
      · exact ⟨x,mem,service.trans here,later waits,release ▸ enough⟩
  refine ⟨apart,fun y mem serves name asked => ?_⟩
  obtain old | ⟨rfl,_⟩ := memSet found mem
  · exact keeps (fresh.calls y old serves name asked)
  · have calls := opened serves name (release ▸ asked)
    have same : Calls s y name := ⟨by rw [release]; exact calls.listed,by rw [release]; exact calls.known⟩
    exact keeps same

theorem freshStep (fresh : Fresh s) (onward : Onward s a) (one : step s a = some t) : Fresh t := by
  cases stepDoes one with
  | faults fs => exact ⟨fresh.apart,fun p mem serves name asked => ⟨(fresh.calls p mem serves name asked).listed,
      (fresh.calls p mem serves name asked).known⟩⟩
  | start service release addr =>
    refine ⟨onward,fun p mem serves name asked => ?_⟩
    obtain old | new := List.mem_append.mp mem
    · have calls := fresh.calls p old serves name asked
      refine ⟨fun q inside here listed => ?_,?_⟩
      · obtain before | last := List.mem_append.mp inside
        · exact calls.listed q before here listed
        · cases List.mem_singleton.mp last
          exact absurd listed (by simp [Pod.listed])
      · obtain ⟨q,before,more⟩ := calls.known
        exact ⟨q,List.mem_append_left _ before,more⟩
    · cases List.mem_singleton.mp new
      exact absurd serves (by simp)
  | @opens i p found waits passes =>
    have mem := List.mem_of_getElem? found
    refine freshSet fresh found rfl rfl (fun other => absurd waits other) (fun _ => ?_) (fun _ name asked => ?_)
    · exact .inr (onward p (Option.mem_def.mpr found) passes)
    · exact opensCalls fresh.apart mem passes asked
  | sleeps found waits closed => exact fresh
  | @health i p usable found =>
    refine freshSet fresh found rfl rfl id (fun listed => ?_) (fun serves => fresh.calls p (List.mem_of_getElem? found) serves)
    simp only [Pod.listed,Bool.and_eq_true,decide_eq_true_eq] at listed
    exact .inr (onward p (Option.mem_def.mpr found) listed.2 listed.1)
  | stop found =>
    exact freshSet fresh found rfl rfl (fun _ => by simp) (fun listed => absurd listed (by simp [Pod.listed]))
      (fun serves => absurd serves (by simp))

def start : State := ⟨[],[]⟩

theorem startFresh : Fresh start := ⟨fun _ mem => absurd mem List.not_mem_nil,fun _ mem => absurd mem List.not_mem_nil⟩

theorem calleesNewEnough {as : List Action} (along : Along step Onward start as) (ran : run step start as = some s)
    (mem : p ∈ s.pods) (serves : p.phase = .serving) (asked : name ∈ p.release.depNames) (inside : q ∈ s.pods)
    (service : q.service = name) (listed : q.listed = true) : p.release.need name ≤ q.release.selfGen :=
  ((runKeeps freshStep startFresh along ran).calls p mem serves name asked).listed q inside service listed

def walletOld : IDLDeps := ⟨"ser-wallet",4,[],by decide,List.nodup_nil⟩
def walletNew : IDLDeps := ⟨"ser-wallet",5,[],by decide,List.nodup_nil⟩
def gatewayNew : IDLDeps := ⟨"gateway",3,[("ser-wallet",5)],by decide,List.nodup_singleton _⟩

def gatewayFirst : List Action :=
  [.start "ser-wallet" walletOld "10.0.0.1:8100",.check 0,.start "gateway" gatewayNew "10.0.0.2:8080",.check 1,
    .start "ser-wallet" walletNew "10.0.0.3:8100",.check 2,.check 1,.stop 0,.check 1]

def gatewayPod : Pod := ⟨"gateway",gatewayNew,"10.0.0.2:8080",.serving,true⟩
def walletPod : Pod := ⟨"ser-wallet",walletNew,"10.0.0.3:8100",.serving,true⟩

def gatewayOpen : State := ⟨[],[⟨"ser-wallet",walletOld,"10.0.0.1:8100",.gone,true⟩,gatewayPod,walletPod]⟩

theorem gatewayServed : gatewayNew.need "ser-wallet" ≤ walletNew.selfGen := by
  have along : Along step Onward start gatewayFirst := by decide +kernel
  have ran : run step start gatewayFirst = some gatewayOpen := by decide +kernel
  exact calleesNewEnough (p := gatewayPod) (q := walletPod) along ran (by decide) rfl (memNames.mpr (by decide)) (by decide) rfl rfl

end Callees
section Order

structure Plan where
  target : List (String × IDLDeps)
  rank : String → Nat
  met : ∀ service d, target.lookup service = some d → ∀ name ∈ d.depNames, ∃ d', target.lookup name = some d' ∧
    rank name < rank service ∧ ¬ Outdated d' d (d.need name)

variable (plan : Plan) (s : State)

def Plan.new (p : Pod) : Bool := plan.target.lookup p.service == some p.release

def Plan.due (p : Pod) : Bool :=
  (plan.target.lookup p.service).isSome && if plan.new p then p.phase = .waiting else p.phase ≠ .gone

def Plan.work : Nat := s.pods.countP plan.due

def Effective : Action → Prop
  | .check i => ∃ p, s.pods[i]? = some p ∧ plan.new p = true ∧ p.phase = .waiting ∧ opens p.release (lookup s) = true
  | .stop i => ∃ p, s.pods[i]? = some p ∧ plan.due p = true ∧ plan.new p = false ∧
      ∀ q ∈ s.pods, q.service = p.service → plan.new q = true → q.phase ≠ .waiting
  | _ => False

instance effectiveDecidable : ∀ a, Decidable (Effective plan s a)
  | .check i => inferInstanceAs (Decidable (∃ p ∈ s.pods[i]?, plan.new p = true ∧ p.phase = .waiting ∧
      opens p.release (lookup s) = true))
  | .stop i => inferInstanceAs (Decidable (∃ p ∈ s.pods[i]?, plan.due p = true ∧ plan.new p = false ∧
      ∀ q ∈ s.pods, q.service = p.service → plan.new q = true → q.phase ≠ .waiting))
  | .faults _ | .start _ _ _ | .health _ _ => isFalse id

structure Staffed : Prop where
  fine : s.faults = []
  usable : ∀ p ∈ s.pods, p.usable = true
  some' : ∀ service d, plan.target.lookup service = some d →
    ∃ p ∈ s.pods, p.service = service ∧ p.release = d ∧ p.phase ≠ .gone

variable {plan s} {t : State} {a : Action} {p q : Pod} {name service : String} {d : IDLDeps}

theorem newPlanned (new : plan.new p = true) : plan.target.lookup p.service = some p.release := beq_iff_eq.mp new

theorem registeredNew (staffed : Staffed plan s) (target : plan.target.lookup name = some d)
    (none' : ∀ p ∈ s.pods, p.service = name → plan.due p = false) :
    registered s name ≠ [] ∧ ∀ x ∈ registered s name, x.metadata = d.metadata := by
  constructor
  · obtain ⟨p,mem,rfl,rfl,left⟩ := staffed.some' name d target
    have new : plan.new p = true := beq_iff_eq.mpr target
    have waits := none' p mem rfl
    simp only [Plan.due,target,new,Option.isSome_some,if_true,Bool.true_and,decide_eq_false_iff_not] at waits
    have serves : p.phase = .serving := by
      cases phase : p.phase with
      | waiting => exact absurd phase waits
      | serving => rfl
      | gone => exact absurd phase left
    exact List.ne_nil_of_mem (memRegistered.mpr ⟨p,mem,rfl,by simp [Pod.listed,serves,staffed.usable p mem],rfl⟩)
  · intro x listed
    obtain ⟨p,mem,rfl,here,rfl⟩ := memRegistered.mp listed
    have due := none' p mem rfl
    simp only [Pod.listed,Bool.and_eq_true,decide_eq_true_eq] at here
    cases new : plan.new p with
    | true =>
      have same := Option.some.inj ((newPlanned new).symm.trans target)
      rw [← same]
      rfl
    | false => simp [Plan.due,target,new,here.1] at due

theorem opensMet (staffed : Staffed plan s) (target : plan.target.lookup service = some d)
    (none' : ∀ p ∈ s.pods, plan.rank p.service < plan.rank service → plan.due p = false) : opens d (lookup s) = true := by
  by_cases named : d.self = ""
  · simp [opens,IDLDeps.empty,named]
  have all : (unmet d (lookup s)).1 = [] := by
    refine List.eq_nil_iff_forall_not_mem.mpr (fun u mem => ?_)
    obtain ⟨inside,asked⟩ := memUnmet mem
    obtain ⟨d',target',less,enough⟩ := plan.met service d target u.name asked
    obtain ⟨some',alike⟩ := registeredNew staffed target' (fun p mem same => none' p mem (same ▸ less))
    have fine : s.faults.lookup u.name = none := by rw [staffed.fine]; rfl
    unfold unmetOf at inside
    rw [lookupFine fine] at inside
    simp only [if_neg some'] at inside
    rw [judgeAlike named alike,if_neg enough] at inside
    exact absurd inside List.not_mem_nil
  simp [opens,all]

theorem firstDue {l : List Pod} (some' : ∃ p ∈ l, plan.due p = true) :
    ∃ p ∈ l, plan.due p = true ∧ ∀ q ∈ l, plan.rank q.service < plan.rank p.service → plan.due q = false := by
  induction l with
  | nil => exact absurd some' (by simp)
  | cons p l ih =>
    by_cases more : ∃ q ∈ l, plan.due q = true
    · obtain ⟨q,mem,due,first⟩ := ih more
      by_cases earlier : plan.due p = true ∧ plan.rank p.service < plan.rank q.service
      · refine ⟨p,List.mem_cons_self,earlier.1,fun r inside less => ?_⟩
        obtain rfl | old := List.mem_cons.mp inside
        · omega
        · exact first r old (less.trans earlier.2)
      · refine ⟨q,List.mem_cons_of_mem _ mem,due,fun r inside less => ?_⟩
        obtain rfl | old := List.mem_cons.mp inside
        · exact Bool.eq_false_iff.mpr (fun due' => earlier ⟨due',less⟩)
        · exact first r old less
    · obtain ⟨q,mem,due⟩ := some'
      obtain rfl | old := List.mem_cons.mp mem
      · refine ⟨q,List.mem_cons_self,due,fun r inside less => ?_⟩
        obtain rfl | old := List.mem_cons.mp inside
        · omega
        · exact Bool.eq_false_iff.mpr (fun due' => more ⟨r,old,due'⟩)
      · exact absurd ⟨q,old,due⟩ more

theorem duePlanned (due : plan.due p = true) : ∃ d, plan.target.lookup p.service = some d := by
  unfold Plan.due at due
  exact Option.isSome_iff_exists.mp (Bool.and_eq_true_iff.mp due).1

theorem nextWhileWork (staffed : Staffed plan s) (work : plan.work s ≠ 0) : ∃ a, Effective plan s a ∧ ∃ t, step s a = some t := by
  have some' : ∃ p ∈ s.pods, plan.due p = true := List.countP_pos_iff.mp (Nat.pos_of_ne_zero work)
  obtain ⟨p,mem,due,first⟩ := firstDue some'
  obtain ⟨d,target⟩ := duePlanned due
  have passes : opens d (lookup s) = true := opensMet staffed target first
  by_cases waits : ∃ q ∈ s.pods, q.service = p.service ∧ plan.new q = true ∧ q.phase = .waiting
  · obtain ⟨q,inside,same,new,here⟩ := waits
    obtain ⟨i,found⟩ := List.getElem?_of_mem inside
    have release : q.release = d := Option.some.inj ((newPlanned new).symm.trans (same ▸ target))
    have opened : opens q.release (lookup s) = true := release ▸ passes
    refine ⟨.check i,⟨q,found,new,here,opened⟩,{s with pods := s.pods.set i {q with phase := .serving}},?_⟩
    simp only [step,found,bind,Option.bind_some,here,ne_eq,not_true_eq_false,if_false,opened,if_true]
  · obtain ⟨i,found⟩ := List.getElem?_of_mem mem
    have old : plan.new p = false := by
      refine Bool.eq_false_iff.mpr (fun new => waits ⟨p,mem,rfl,new,?_⟩)
      simpa [Plan.due,target,new] using due
    refine ⟨.stop i,⟨p,found,due,old,fun q inside same new here => waits ⟨q,inside,same,new,here⟩⟩,
      {s with pods := s.pods.set i {p with phase := .gone}},?_⟩
    simp only [step,found,bind,Option.bind_some]

theorem staffedSet {i : Nat} {x : Pod} (staffed : Staffed plan s) (found : s.pods[i]? = some p) (service : x.service = p.service)
    (release : x.release = p.release) (usable : x.usable = p.usable) (left : plan.new p = true → x.phase ≠ .gone) :
    Staffed plan {s with pods := s.pods.set i x} := by
  refine ⟨staffed.fine,fun q mem => ?_,fun name d target => ?_⟩
  · obtain old | ⟨rfl,inside⟩ := memSet found mem
    · exact staffed.usable q old
    · exact usable.trans (staffed.usable p inside)
  · obtain ⟨q,old,rfl,rfl,here⟩ := staffed.some' name d target
    obtain mem | ⟨rfl,mem⟩ := setMem (x := x) found old
    · exact ⟨q,mem,rfl,rfl,here⟩
    · exact ⟨x,mem,service,release,left (beq_iff_eq.mpr target)⟩

theorem workSet {i : Nat} {x : Pod} (found : s.pods[i]? = some p) (before : plan.due p = true) (after : plan.due x = false) :
    plan.work {s with pods := s.pods.set i x} + 1 = plan.work s := by
  have moved := countMoved (q := plan.due) (x := x) found
  rw [before,after] at moved
  exact moved

theorem effectiveStep (staffed : Staffed plan s) (effective : Effective plan s a) (one : step s a = some t) :
    Staffed plan t ∧ plan.work t + 1 = plan.work s := by
  cases stepDoes one with
  | @opens i p found waits passes =>
    obtain ⟨p',found',new,_,_⟩ := effective
    cases Option.some.inj (found'.symm.trans found)
    have target := newPlanned new
    have same : plan.new {p with phase := .serving} = true := new
    refine ⟨staffedSet staffed found rfl rfl rfl (fun _ => by simp),workSet found ?_ ?_⟩
    · simp [Plan.due,target,new,waits]
    · simp [Plan.due,target,same]
  | sleeps found waits closed =>
    obtain ⟨p',found',_,_,passes⟩ := effective
    cases Option.some.inj (found'.symm.trans found)
    exact absurd (passes.symm.trans closed) (by simp)
  | @stop i p found =>
    obtain ⟨p',found',due,old,_⟩ := effective
    cases Option.some.inj (found'.symm.trans found)
    have same : plan.new {p with phase := .gone} = false := old
    refine ⟨staffedSet staffed found rfl rfl rfl (fun new => absurd (old.symm.trans new) (by simp)),workSet found due ?_⟩
    simp [Plan.due,same]
  | _ => exact absurd effective id

theorem effectiveRun {as : List Action} (staffed : Staffed plan s) (along : Along step (Effective plan) s as)
    (ran : run step s as = some t) : Staffed plan t ∧ plan.work t + as.length = plan.work s := by
  induction as generalizing s with
  | nil =>
    cases Option.some.inj ran
    exact ⟨staffed,rfl⟩
  | cons a as ih =>
    obtain ⟨u,one,rest⟩ := runCons.mp ran
    obtain ⟨here,later⟩ := (alongCons one).mp along
    obtain ⟨next,less⟩ := effectiveStep staffed here one
    obtain ⟨last,total⟩ := ih next later rest
    exact ⟨last,by rw [List.length_cons]; omega⟩

theorem releasesNeedNoOrder {as : List Action} (staffed : Staffed plan s) (along : Along step (Effective plan) s as)
    (ran : run step s as = some t) :
    plan.work t + as.length = plan.work s ∧
      (plan.work t ≠ 0 → ∃ a, Effective plan t a ∧ ∃ u, step t a = some u) ∧
      (plan.work t = 0 → ∀ service d, plan.target.lookup service = some d →
        registered t service ≠ [] ∧ ∀ x ∈ registered t service, x.metadata = d.metadata) := by
  obtain ⟨last,total⟩ := effectiveRun staffed along ran
  refine ⟨total,nextWhileWork last,fun done service d target => registeredNew last target (fun p mem _ => ?_)⟩
  exact Bool.eq_false_iff.mpr (fun due => (List.countP_eq_zero.mp done) p mem due)

def bonus : IDLDeps := ⟨"ser-bonus",7,[("ser-wallet",5)],by decide,List.nodup_singleton _⟩
def gatewayOld : IDLDeps := ⟨"gateway",2,[("ser-wallet",4)],by decide,List.nodup_singleton _⟩
def gatewayNext : IDLDeps := ⟨"gateway",3,[("ser-bonus",7)],by decide,List.nodup_singleton _⟩

def shop : Plan where
  target := [("gateway",gatewayNext),("ser-bonus",bonus),("ser-wallet",walletNew)]
  rank := fun name => if name = "gateway" then 2 else if name = "ser-bonus" then 1 else 0
  met := by
    intro service d target name asked
    have all : ∀ e ∈ [("gateway",gatewayNext),("ser-bonus",bonus),("ser-wallet",walletNew)], ∀ name ∈ e.2.depNames,
        ∃ d' ∈ [("gateway",gatewayNext),("ser-bonus",bonus),("ser-wallet",walletNew)].lookup name,
          (if name = "gateway" then 2 else if name = "ser-bonus" then 1 else 0) <
            (if e.1 = "gateway" then 2 else if e.1 = "ser-bonus" then 1 else 0) ∧ ¬ Outdated d' e.2 (e.2.need name) := by
      decide +kernel
    exact all _ (Pairs.lookupMem target) name asked

def shopRolling : State :=
  ⟨[],[⟨"ser-wallet",walletOld,"10.0.0.1:8100",.serving,true⟩,⟨"gateway",gatewayOld,"10.0.0.2:8080",.serving,true⟩,
    ⟨"gateway",gatewayNext,"10.0.0.3:8080",.waiting,true⟩,⟨"ser-bonus",bonus,"10.0.0.4:8100",.waiting,true⟩,
    ⟨"ser-wallet",walletNew,"10.0.0.5:8100",.waiting,true⟩]⟩

def shopSteps : List Action := [.check 4,.stop 0,.check 3,.check 2,.stop 1]

def shopDone : State :=
  ⟨[],[⟨"ser-wallet",walletOld,"10.0.0.1:8100",.gone,true⟩,⟨"gateway",gatewayOld,"10.0.0.2:8080",.gone,true⟩,
    ⟨"gateway",gatewayNext,"10.0.0.3:8080",.serving,true⟩,⟨"ser-bonus",bonus,"10.0.0.4:8100",.serving,true⟩,
    ⟨"ser-wallet",walletNew,"10.0.0.5:8100",.serving,true⟩]⟩

theorem shopStaffed : Staffed shop shopRolling := by
  refine ⟨rfl,by decide,fun service d target => ?_⟩
  have all : ∀ e ∈ shop.target, ∃ p ∈ shopRolling.pods, p.service = e.1 ∧ p.release = e.2 ∧ p.phase ≠ .gone := by decide
  exact all _ (Pairs.lookupMem target)

theorem shopReleased : shop.work shopDone + 5 = shop.work shopRolling ∧ registered shopDone "gateway" ≠ [] := by
  have along : Along step (Effective shop) shopRolling shopSteps := by decide +kernel
  have ran : run step shopRolling shopSteps = some shopDone := by decide +kernel
  obtain ⟨total,_,done⟩ := releasesNeedNoOrder shopStaffed along ran
  exact ⟨total,(done (by decide +kernel) "gateway" gatewayNext (by decide)).1⟩

end Order
end DevkitCommon.Kitexx.Rollouts
