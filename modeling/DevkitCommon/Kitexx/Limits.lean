import DevkitCommon.Lib.Machine

/-! The limits of an RPC server, step by step. Requests come in any number: each is counted
in flight, reads the clock, is counted in its window of 100 ms, runs its handler and is taken
off the count, whatever way the handler ends. -/
namespace DevkitCommon.Kitexx.Limits
open Machine

structure LimitsConfig where
  maxInFlight : Int
  maxQPS : Int
  deriving DecidableEq, Repr

def LimitsConfig.inFlight (cfg : LimitsConfig) : Int :=
  if cfg.maxInFlight < 0 then 0 else if cfg.maxInFlight = 0 then 1000 else cfg.maxInFlight

def LimitsConfig.perWindow (cfg : LimitsConfig) : Int := if cfg.maxQPS/10 < 1 then 1 else cfg.maxQPS/10

inductive Ending where
  | nil
  | error
  | panic
  deriving DecidableEq, Repr

inductive Result where
  | busy (code : Int) (reason msg : String)
  | ran (how : Ending)
  deriving DecidableEq, Repr

def refuse (reason : String) : Result := .busy 5003 reason "服务忙，请稍后重试"

/- beyond: added to the count, which is beyond the limit. leaving: all is done but for the
deferred Add(-1). -/
inductive Point where
  | beyond
  | inside
  | read (slot : Nat)
  | handler
  | leaving (result : Result)
  | ended (result : Result)
  deriving DecidableEq, Repr

/- The clock is in nanoseconds. admitted are the windows of the requests that take has let
through; no step reads it. -/
structure State where
  clock : Nat
  inFlight : Int
  window : Nat
  count : Int
  requests : List Point
  admitted : List Nat
  deriving DecidableEq, Repr

def State.init (clock : Nat) : State := ⟨clock,0,0,0,[],[]⟩

def State.setRequest (s : State) (i : Nat) (p : Point) : State := {s with requests := s.requests.set i p}

inductive Action where
  | tick (d : Nat)
  | arrive
  | giveBack (i : Nat)
  | read (i : Nat)
  | take (i : Nat)
  | finish (i : Nat) (how : Ending)
  | leave (i : Nat)
  deriving DecidableEq, Repr

def slotOf (clock : Nat) : Nat := clock/100000000

variable (cfg : LimitsConfig)

def State.countOf (s : State) (slot : Nat) : Int := if slot ≠ s.window then 0 else s.count

def take (s : State) (i slot : Nat) : State :=
  let count := s.countOf slot
  if cfg.perWindow ≤ count then {s with window := slot,count := count}.setRequest i (.leaving (refuse "qps"))
  else {s with window := slot,count := count + 1,admitted := s.admitted ++ [slot]}.setRequest i .handler

def step (s : State) : Action → Option State
  | .tick d => some {s with clock := s.clock + d}
  | .arrive =>
    if 0 < cfg.inFlight then
      let point : Point := if cfg.inFlight < s.inFlight + 1 then .beyond else .inside
      some {s with inFlight := s.inFlight + 1,requests := s.requests ++ [point]}
    else some {s with requests := s.requests ++ [.inside]}
  | .giveBack i => match s.requests[i]? with
    | some .beyond => some ({s with inFlight := s.inFlight - 1}.setRequest i (.ended (refuse "in_flight")))
    | _ => none
  | .read i => match s.requests[i]? with
    | some .inside => some (s.setRequest i (if 0 < cfg.maxQPS then .read (slotOf s.clock) else .handler))
    | _ => none
  | .take i => match s.requests[i]? with
    | some (.read slot) => some (take cfg s i slot)
    | _ => none
  | .finish i how => match s.requests[i]? with
    | some .handler => some (s.setRequest i (.leaving (.ran how)))
    | _ => none
  | .leave i => match s.requests[i]? with
    | some (.leaving result) =>
      some ({s with inFlight := if 0 < cfg.inFlight then s.inFlight - 1 else s.inFlight}.setRequest i (.ended result))
    | _ => none

theorem takeCases (s : State) (i slot : Nat) :
    (cfg.perWindow ≤ s.countOf slot ∧
      take cfg s i slot = {s with window := slot,count := s.countOf slot}.setRequest i (.leaving (refuse "qps"))) ∨
    (s.countOf slot < cfg.perWindow ∧ take cfg s i slot =
      {s with window := slot,count := s.countOf slot + 1,admitted := s.admitted ++ [slot]}.setRequest i .handler) := by
  by_cases full : cfg.perWindow ≤ s.countOf slot
  · exact .inl ⟨full,if_pos full⟩
  · exact .inr ⟨Int.not_le.mp full,if_neg full⟩

section InFlight

def Point.counted : Point → Bool
  | .ended _ => false
  | _ => true

def Point.within : Point → Bool
  | .inside | .read _ | .handler | .leaving _ => true
  | _ => false

def Point.handling : Point → Bool
  | .handler => true
  | _ => false

structure Balanced (s : State) : Prop where
  count : 0 < cfg.inFlight → s.inFlight = s.requests.countP Point.counted
  within : 0 < cfg.inFlight → (s.requests.countP Point.within : Int) ≤ cfg.inFlight

variable {cfg : LimitsConfig} {s t : State} {a : Action}

theorem countSet {p : Point → Bool} {l : List Point} {i : Nat} {x y : Point} (found : l[i]? = some x) :
    (l.set i y).countP p + (if p x then 1 else 0) = l.countP p + (if p y then 1 else 0) := by
  induction l generalizing i with
  | nil => cases found
  | cons z rest ih =>
    cases i with
    | zero =>
      cases Option.some.inj found
      rw [List.set_cons_zero,List.countP_cons,List.countP_cons]
      omega
    | succ i =>
      have later := ih found
      rw [List.set_cons_succ,List.countP_cons,List.countP_cons]
      omega

theorem moveBalanced {i : Nat} {x y : Point} (inv : Balanced cfg s) (found : s.requests[i]? = some x)
    (flight : t.inFlight = s.inFlight) (requests : t.requests = s.requests.set i y)
    (counted : y.counted = x.counted) (within : y.within = x.within) : Balanced cfg t := by
  have same := countSet (p := Point.counted) (y := y) found
  have same' := countSet (p := Point.within) (y := y) found
  rw [counted] at same
  rw [within] at same'
  refine ⟨fun on => ?_,fun on => ?_⟩
  · rw [flight,requests,inv.count on]
    omega
  · have before := inv.within on
    rw [requests]
    omega

theorem endBalanced {i : Nat} {x : Point} {result : Result} (inv : Balanced cfg s) (found : s.requests[i]? = some x)
    (flight : 0 < cfg.inFlight → t.inFlight = s.inFlight - 1) (requests : t.requests = s.requests.set i (.ended result))
    (counted : x.counted = true) : Balanced cfg t := by
  have same := countSet (p := Point.counted) (y := .ended result) found
  have same' := countSet (p := Point.within) (y := .ended result) found
  have out : (Point.ended result).counted = false ∧ (Point.ended result).within = false := ⟨rfl,rfl⟩
  rw [counted,out.1] at same
  rw [out.2] at same'
  simp only [if_true,if_false,Bool.false_eq_true] at same same'
  refine ⟨fun on => ?_,fun on => ?_⟩
  · rw [flight on,requests,inv.count on]
    omega
  · have before := inv.within on
    rw [requests]
    omega

theorem withinCounted (l : List Point) : l.countP Point.within ≤ l.countP Point.counted :=
  List.countP_mono_left (fun p _ within => by cases p <;> first | rfl | exact within)

theorem stepBalanced (inv : Balanced cfg s) (one : step cfg s a = some t) : Balanced cfg t := by
  cases a with
  | tick d =>
    cases Option.some.inj one
    exact ⟨inv.count,inv.within⟩
  | arrive =>
    simp only [step] at one
    split at one
    · rename_i on
      cases Option.some.inj one
      have count := inv.count on
      have before := inv.within on
      have fewer := withinCounted s.requests
      refine ⟨fun _ => ?_,fun _ => ?_⟩
      · show s.inFlight + 1 = ((s.requests ++ [_]).countP Point.counted : Int)
        rw [List.countP_append,List.countP_singleton]
        split <;> simp [Point.counted,count]
      · show ((s.requests ++ [_]).countP Point.within : Int) ≤ cfg.inFlight
        rw [List.countP_append,List.countP_singleton]
        split
        · simpa [Point.within] using before
        · simp only [Point.within,if_true]
          omega
    · rename_i off
      exact ⟨fun on => absurd on off,fun on => absurd on off⟩
  | giveBack i =>
    simp only [step] at one
    split at one
    · rename_i found
      cases Option.some.inj one
      exact endBalanced inv found (fun _ => rfl) rfl rfl
    · cases one
  | read i =>
    simp only [step] at one
    split at one
    · rename_i found
      cases Option.some.inj one
      refine moveBalanced inv found rfl rfl ?_ ?_ <;> split <;> rfl
    · cases one
  | take i =>
    simp only [step] at one
    split at one
    · rename_i slot found
      cases Option.some.inj one
      obtain ⟨_,same⟩ | ⟨_,same⟩ := takeCases cfg s i slot
      · rw [same]
        exact moveBalanced inv found rfl rfl rfl rfl
      · rw [same]
        exact moveBalanced inv found rfl rfl rfl rfl
    · cases one
  | finish i how =>
    simp only [step] at one
    split at one
    · rename_i found
      cases Option.some.inj one
      exact moveBalanced inv found rfl rfl rfl rfl
    · cases one
  | leave i =>
    simp only [step] at one
    split at one
    · rename_i result found
      cases Option.some.inj one
      exact endBalanced inv found (fun on => if_pos on) rfl rfl
    · cases one

theorem initBalanced (clock : Nat) : Balanced cfg (State.init clock) := ⟨fun _ => rfl,fun on => Int.le_of_lt on⟩

end InFlight
section Windows

def inOrder (s : State) : Action → Bool
  | .take i => match s.requests[i]? with
    | some (.read slot) => decide (s.window ≤ slot)
    | _ => true
  | _ => true

structure Windows (cfg : LimitsConfig) (s : State) : Prop where
  past : ∀ slot ∈ s.admitted, slot ≤ s.window
  count : s.count = (s.admitted.count s.window : Int)
  each : ∀ slot, (s.admitted.count slot : Int) ≤ cfg.perWindow

variable {cfg : LimitsConfig} {s t : State} {a : Action}

theorem perWindowPositive (cfg : LimitsConfig) : 0 < cfg.perWindow := by
  unfold LimitsConfig.perWindow
  split <;> omega

theorem initWindows (cfg : LimitsConfig) (clock : Nat) : Windows cfg (State.init clock) :=
  ⟨fun _ mem => (nomatch mem),rfl,fun _ => Int.le_of_lt (perWindowPositive cfg)⟩

theorem countOfIs (inv : Windows cfg s) {slot : Nat} (order : s.window ≤ slot) :
    s.countOf slot = (s.admitted.count slot : Int) := by
  unfold State.countOf
  split
  · rename_i later
    have none : slot ∉ s.admitted := fun mem => later (Nat.le_antisymm (inv.past slot mem) order)
    rw [List.count_eq_zero_of_not_mem none]
    rfl
  · rename_i same
    rw [inv.count,Decidable.not_not.mp same]

theorem takeWindows (inv : Windows cfg s) (i : Nat) {slot : Nat} (order : s.window ≤ slot) :
    Windows cfg (take cfg s i slot) := by
  have count := countOfIs inv order
  obtain ⟨_,same⟩ | ⟨room,same⟩ := takeCases cfg s i slot
  · rw [same]
    exact ⟨fun k mem => Nat.le_trans (inv.past k mem) order,count,inv.each⟩
  · rw [same]
    refine ⟨fun k mem => ?_,?_,fun k => ?_⟩
    · obtain old | new := List.mem_append.mp mem
      · exact Nat.le_trans (inv.past k old) order
      · exact Nat.le_of_eq (List.mem_singleton.mp new)
    · show s.countOf slot + 1 = ((s.admitted ++ [slot]).count slot : Int)
      rw [List.count_append,List.count_singleton_self,count]
      omega
    · show ((s.admitted ++ [slot]).count k : Int) ≤ cfg.perWindow
      have before := inv.each k
      rw [List.count_append]
      by_cases here : slot = k
      · rw [here,List.count_singleton_self,← here]
        omega
      · rw [List.count_singleton,if_neg (by simpa using here)]
        omega

theorem stepWindows (inv : Windows cfg s) (order : inOrder s a = true) (one : step cfg s a = some t) : Windows cfg t := by
  cases a with
  | take i =>
    simp only [step] at one
    split at one
    · rename_i slot found
      cases Option.some.inj one
      have later : s.window ≤ slot := by
        rw [inOrder,found] at order
        exact of_decide_eq_true order
      exact takeWindows inv i later
    · cases one
  | arrive =>
    simp only [step] at one
    split at one <;> cases Option.some.inj one <;> exact ⟨inv.past,inv.count,inv.each⟩
  | tick d =>
    cases Option.some.inj one
    exact ⟨inv.past,inv.count,inv.each⟩
  | giveBack i | read i | finish i how | leave i =>
    simp only [step] at one
    split at one
    · cases Option.some.inj one
      exact ⟨inv.past,inv.count,inv.each⟩
    · cases one

theorem spanCount {admitted : List Nat} {most : Nat} (each : ∀ slot, admitted.count slot ≤ most) (k n : Nat) :
    admitted.countP (fun slot => k ≤ slot ∧ slot < k+n) ≤ n*most := by
  induction n with
  | zero =>
    have none : admitted.countP (fun slot => k ≤ slot ∧ slot < k+0) = 0 :=
      List.countP_eq_zero.mpr (fun slot _ both => by simp only [decide_eq_true_eq] at both; omega)
    omega
  | succ n ih =>
    have parts (l : List Nat) : l.countP (fun slot => k ≤ slot ∧ slot < k+(n+1)) =
        l.countP (fun slot => k ≤ slot ∧ slot < k+n) + l.count (k+n) := by
      induction l with
      | nil => rfl
      | cons x rest ih =>
        rw [List.countP_cons,List.countP_cons,List.count_cons,ih]
        simp only [decide_eq_true_eq,beq_iff_eq]
        split <;> split <;> split <;> omega
    have last := each (k+n)
    rw [parts,Nat.succ_mul]
    omega

end Windows
section Claim

structure Held (cfg : LimitsConfig) (s : State) : Prop where
  handling : (s.requests.countP Point.handling : Int) ≤ cfg.maxInFlight
  returned : (∀ p ∈ s.requests, p.counted = false) → s.inFlight = 0
  second : ∀ k, (s.admitted.countP (fun slot => k ≤ slot ∧ slot < k+10) : Int) ≤ cfg.maxQPS

variable {cfg : LimitsConfig} {s t : State} {a : Action}

theorem heldWhen (flight : 0 < cfg.maxInFlight) (tenth : 10 ≤ cfg.maxQPS) (balanced : Balanced cfg s)
    (windows : Windows cfg s) : Held cfg s where
  handling := by
    have limit : cfg.inFlight = cfg.maxInFlight := by
      unfold LimitsConfig.inFlight
      split
      · omega
      · split <;> omega
    have within := balanced.within (by omega)
    have fewer : s.requests.countP Point.handling ≤ s.requests.countP Point.within :=
      List.countP_mono_left (fun p _ handling => by cases p <;> first | rfl | cases handling)
    omega
  returned := fun ended => by
    have on : 0 < cfg.inFlight := by
      unfold LimitsConfig.inFlight
      split
      · omega
      · split <;> omega
    rw [balanced.count on,List.countP_eq_zero.mpr (fun p mem => by rw [ended p mem]; decide)]
    rfl
  second := fun k => by
    have tenth' : cfg.perWindow*10 ≤ cfg.maxQPS := by
      unfold LimitsConfig.perWindow
      split <;> omega
    have positive := perWindowPositive cfg
    have each (slot : Nat) : s.admitted.count slot ≤ cfg.perWindow.toNat := by
      have one := windows.each slot
      omega
    have span := spanCount each k 10
    omega

def cycle (i : Nat) : List Action := [.arrive,.read i,.take i,.finish i .nil,.leave i,.tick 100000000]

def cycles : Nat → Nat → List Action
  | _,0 => []
  | i,n+1 => cycle i ++ cycles (i+1) n

structure Idle (s : State) : Prop where
  flight : s.inFlight = 0
  window : s.window < slotOf s.clock ∨ s.window = slotOf s.clock ∧ s.count = 0

def State.adding (s : State) (p : Point) : State := {s with requests := s.requests ++ [p]}

theorem addedFound (s : State) (p : Point) : (s.adding p).requests[s.requests.length]? = some p :=
  List.getElem?_concat_length

theorem addedSet (s : State) (p q : Point) : (s.adding p).setRequest s.requests.length q = s.adding q := by
  have last : (s.requests ++ [p]).set s.requests.length q = s.requests ++ [q] := by
    rw [List.set_append_right _ _ (Nat.le_refl _),Nat.sub_self]
    rfl
  rw [State.setRequest,State.adding,last]
  rfl

theorem cycleRuns (flight : 0 < cfg.maxInFlight) (qps : 0 < cfg.maxQPS) (idle : Idle s) :
    ∃ t, run (step cfg) s (cycle s.requests.length) = some t ∧
      Along (step cfg) (fun s a => inOrder s a = true) s (cycle s.requests.length) ∧ Idle t ∧
      t.clock = s.clock + 100000000 ∧ t.requests.length = s.requests.length + 1 ∧
      t.admitted = s.admitted ++ [slotOf s.clock] := by
  have on : 1 ≤ cfg.inFlight := by
    unfold LimitsConfig.inFlight
    split
    · omega
    · split <;> omega
  have order : s.window ≤ slotOf s.clock := by
    obtain before | ⟨here,-⟩ := idle.window <;> omega
  have fresh : s.countOf (slotOf s.clock) = 0 := by
    unfold State.countOf
    obtain before | ⟨here,none⟩ := idle.window
    · exact if_pos (Nat.ne_of_gt before)
    · rw [none,ite_self]
  let i := s.requests.length
  let slot := slotOf s.clock
  let inside : State := {s with inFlight := 1}
  let counted : State := {s with inFlight := 1,window := slot,count := 1,admitted := s.admitted ++ [slot]}
  let after : State := {s with inFlight := 0,window := slot,count := 1,admitted := s.admitted ++ [slot]}
  have arrive : step cfg s .arrive = some (inside.adding .inside) := by
    have point : (if cfg.inFlight < 0 + 1 then Point.beyond else .inside) = .inside := if_neg (by omega)
    simp only [step,if_pos (show 0 < cfg.inFlight by omega),idle.flight]
    rw [point]
    rfl
  have read : step cfg (inside.adding .inside) (.read i) = some (inside.adding (.read slot)) := by
    have found := addedFound inside .inside
    have set := addedSet inside .inside (.read slot)
    simp only [step]
    rw [show (inside.adding .inside).requests[i]? = some .inside from found]
    show some ((inside.adding .inside).setRequest i (if 0 < cfg.maxQPS then .read slot else .handler)) = _
    rw [if_pos qps]
    exact congrArg some set
  have take' : step cfg (inside.adding (.read slot)) (.take i) = some (counted.adding .handler) := by
    have found := addedFound inside (.read slot)
    simp only [step]
    rw [show (inside.adding (.read slot)).requests[i]? = some (.read slot) from found]
    obtain ⟨full,-⟩ | ⟨-,same⟩ := takeCases cfg (inside.adding (.read slot)) i slot
    · have none : (inside.adding (.read slot)).countOf slot = 0 := fresh
      have positive := perWindowPositive cfg
      omega
    · have none : (inside.adding (.read slot)).countOf slot = 0 := fresh
      show some (take cfg (inside.adding (.read slot)) i slot) = _
      rw [same,none]
      exact congrArg some (addedSet counted (.read slot) .handler)
  have finish : step cfg (counted.adding .handler) (.finish i .nil) = some (counted.adding (.leaving (.ran .nil))) := by
    simp only [step]
    rw [show (counted.adding .handler).requests[i]? = some .handler from addedFound counted .handler]
    exact congrArg some (addedSet counted .handler (.leaving (.ran .nil)))
  have leave : step cfg (counted.adding (.leaving (.ran .nil))) (.leave i) = some (after.adding (.ended (.ran .nil))) := by
    simp only [step]
    rw [show (counted.adding (.leaving (.ran .nil))).requests[i]? = some (.leaving (.ran .nil)) from
      addedFound counted (.leaving (.ran .nil))]
    dsimp only
    rw [if_pos (show 0 < cfg.inFlight by omega)]
    exact congrArg some (addedSet after (.leaving (.ran .nil)) (.ended (.ran .nil)))
  let ended : State := {after.adding (.ended (.ran .nil)) with clock := s.clock + 100000000}
  have later : slot < slotOf (s.clock + 100000000) := by
    show s.clock/100000000 < (s.clock + 100000000)/100000000
    omega
  have inTime : inOrder (inside.adding (.read slot)) (.take i) = true := by
    simp only [inOrder]
    rw [show (inside.adding (.read slot)).requests[i]? = some (.read slot) from addedFound inside (.read slot)]
    exact decide_eq_true order
  refine ⟨ended,?_,?_,⟨rfl,.inl later⟩,rfl,List.length_append,rfl⟩
  · exact runCons.mpr ⟨_,arrive,runCons.mpr ⟨_,read,runCons.mpr ⟨_,take',runCons.mpr ⟨_,finish,
      runCons.mpr ⟨_,leave,rfl⟩⟩⟩⟩⟩
  · exact (alongCons arrive).mpr ⟨rfl,(alongCons read).mpr ⟨rfl,(alongCons take').mpr ⟨inTime,
      (alongCons finish).mpr ⟨rfl,(alongCons leave).mpr ⟨rfl,(alongCons rfl).mpr ⟨rfl,trivial⟩⟩⟩⟩⟩⟩

theorem cyclesRun (flight : 0 < cfg.maxInFlight) (qps : 0 < cfg.maxQPS) (n : Nat) (idle : Idle s) :
    ∃ t, run (step cfg) s (cycles s.requests.length n) = some t ∧
      Along (step cfg) (fun s a => inOrder s a = true) s (cycles s.requests.length n) ∧
      t.admitted = s.admitted ++ (List.range n).map (fun k => slotOf s.clock + k) := by
  induction n generalizing s with
  | zero => exact ⟨s,rfl,trivial,(List.append_nil _).symm⟩
  | succ n ih =>
    obtain ⟨u,ok,order,idle',clock,length,admitted⟩ := cycleRuns flight qps idle
    obtain ⟨t,more,later,rest⟩ := ih idle'
    rw [length] at more later
    refine ⟨t,(runAppend _ _).mpr ⟨u,ok,more⟩,alongConcat ok order later,?_⟩
    have next : slotOf u.clock = slotOf s.clock + 1 := by
      unfold slotOf
      omega
    rw [rest,admitted,next,List.range_succ_eq_map,List.map_cons,List.map_map,List.append_assoc,List.singleton_append]
    refine congrArg (fun l => s.admitted ++ _::l) (List.map_congr_left (fun k _ => ?_))
    show slotOf s.clock + 1 + k = slotOf s.clock + (k+1)
    omega

theorem limitsHeld (flight : 0 < cfg.maxInFlight) (qps : 0 < cfg.maxQPS) :
    (∀ clock as t, Along (step cfg) (fun s a => inOrder s a = true) (State.init clock) as →
      run (step cfg) (State.init clock) as = some t → Held cfg t) ↔ 10 ≤ cfg.maxQPS := by
  constructor
  · intro held
    obtain ⟨t,ok,order,admitted⟩ := cyclesRun flight qps 10 (s := State.init 0) ⟨rfl,.inr ⟨rfl,rfl⟩⟩
    have second := (held 0 _ t order ok).second 0
    have ten : t.admitted.countP (fun slot => 0 ≤ slot ∧ slot < 0+10) = 10 := by
      rw [admitted]
      decide
    omega
  · intro tenth clock as t order ok
    have windows := runKeeps stepWindows (initWindows cfg clock) order ok
    have balanced := runKeeps (p := fun _ _ => True) (fun inv _ one => stepBalanced inv one) (initBalanced clock)
      (alongTrue _ as) ok
    exact heldWhen flight tenth balanced windows

def crowd : List Action :=
  [.arrive,.arrive,.arrive,.giveBack 2,.read 0,.read 1,.take 1,.take 0,.finish 0 .panic,.leave 0,.finish 1 .error,.leave 1]

theorem crowdHeld : ∃ t, run (step ⟨2,30⟩) (State.init 7) crowd = some t ∧ Held ⟨2,30⟩ t := by
  have ran : (run (step ⟨2,30⟩) (State.init 7) crowd).isSome = true := by decide
  obtain ⟨t,ok⟩ := Option.isSome_iff_exists.mp ran
  exact ⟨t,ok,(limitsHeld (by decide) (by decide)).mpr (by decide) 7 crowd t (by decide) ok⟩

theorem tenOfFive : ∃ t, run (step ⟨1000,5⟩) (State.init 0) (cycles 0 10) = some t ∧ ¬ Held ⟨1000,5⟩ t := by
  have counts : (run (step ⟨1000,5⟩) (State.init 0) (cycles 0 10)).map
      (fun t => t.admitted.countP (fun slot => 0 ≤ slot ∧ slot < 0+10)) = some 10 := by decide
  obtain ⟨t,ok,ten⟩ := Option.map_eq_some_iff.mp counts
  refine ⟨t,ok,fun held => ?_⟩
  have five : (t.admitted.countP (fun slot => 0 ≤ slot ∧ slot < 0+10) : Int) ≤ 5 := held.second 0
  omega

example : (run (step ⟨1000,10⟩) (State.init 0) [.arrive,.arrive,.arrive,.read 0,.tick 100000000,.read 1,.read 2,
    .take 1,.take 0,.take 2]).map State.admitted = some [1,0,1] := by decide

end Claim
end DevkitCommon.Kitexx.Limits
