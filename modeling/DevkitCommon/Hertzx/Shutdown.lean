import DevkitCommon.Lib.Machine

/-! An API service from its start to its stop: it leaves Nacos, keeps serving while its callers learn of it,
closes the listener, waits for the requests in progress and runs the hooks, in the order that loses no request. -/
namespace DevkitCommon.Hertzx.Shutdown
open Machine

/- registers: the registry is on and the service registers in it. wait: shutdown.deregister_wait. drain:
shutdown.drain_timeout. -/
structure Config where
  registers : Bool
  wait : Nat
  drain : Nat

inductive Ended where
  | done
  | failed
  | panicked
  deriving DecidableEq

/- closing: the listener is closed; since when the requests in progress are waited for, none without a limit. -/
inductive Phase where
  | starting
  | listening
  | serving
  | leaving (since : Nat)
  | closing (since : Option Nat)
  | hooks (rest : List String)
  | stopped
  deriving DecidableEq

inductive Request where
  | inProgress
  | answered
  | refused
  deriving DecidableEq

/- listed: Nacos has the instance. callers: whether it is in the list each of them holds. hooks: what OnShutdown
has registered, taken: what RunShutdownHooks has taken of it, ran: how each ended. -/
structure State where
  now : Nat
  phase : Phase
  listed : Bool
  callers : List Bool
  requests : List Request
  hooks : List String
  taken : List String
  ran : List (String × Ended)
  deriving DecidableEq

/- joins: another caller asks Nacos. pushes: a caller gets the list as it is now. fails: the gate of the
dependencies, the port, or a listener that does not come up. gaveUp: the server failed by itself. -/
inductive Action where
  | tick (d : Nat)
  | onShutdown (name : String)
  | listens
  | fails
  | registers (ok : Bool)
  | joins
  | pushes (i : Nat)
  | calls (i : Nat)
  | answers (j : Nat)
  | stop (deregistered : Bool)
  | gaveUp (deregistered : Bool)
  | closes
  | drained
  | hook (e : Ended)
  | returns

def Phase.listens : Phase → Bool
  | .listening | .serving | .leaving _ => true
  | _ => false

def runShutdownHooks (s : State) : State := {s with phase := .hooks s.hooks.reverse,taken := s.hooks,hooks := []}

def deregister (s : State) (ok : Bool) : State := {s with listed := s.listed && !ok}

def step (c : Config) (s : State) : Action → Option State
  | .tick d => some {s with now := s.now+d}
  | .onShutdown name => some {s with hooks := s.hooks ++ [name]}
  | .listens => if s.phase = .starting then some {s with phase := .listening} else none
  | .fails => if s.phase = .starting then some (runShutdownHooks s) else none
  | .registers ok =>
    if s.phase = .listening then
      if ok then some {s with phase := .serving,listed := c.registers} else some {s with phase := .closing none}
    else none
  | .joins => some {s with callers := s.callers ++ [s.listed]}
  | .pushes i => if i < s.callers.length then some {s with callers := s.callers.set i s.listed} else none
  | .calls i => do
    let has ← s.callers[i]?
    if has then some {s with requests := s.requests ++ [if s.phase.listens then .inProgress else .refused]} else none
  | .answers j => do
    let r ← s.requests[j]?
    if r = .inProgress ∧ s.phase ≠ .stopped then some {s with requests := s.requests.set j .answered} else none
  | .stop ok =>
    if s.phase = .serving then
      if ok ∧ c.registers ∧ 0 < c.wait then some {deregister s ok with phase := .leaving s.now}
      else some {deregister s ok with phase := .closing (some s.now)}
    else none
  | .gaveUp ok => if s.phase = .serving then some (runShutdownHooks (deregister s ok)) else none
  | .closes =>
    match s.phase with
    | .leaving since => if since + c.wait ≤ s.now then some {s with phase := .closing (some s.now)} else none
    | _ => none
  | .drained =>
    match s.phase with
    | .closing since =>
      if .inProgress ∉ s.requests ∨ ∃ t ∈ since, t + c.drain ≤ s.now then some (runShutdownHooks s) else none
    | _ => none
  | .hook e =>
    match s.phase with
    | .hooks (h::rest) => some {s with phase := .hooks rest,ran := s.ran ++ [(h,e)]}
    | _ => none
  | .returns => if s.phase = .hooks [] then some {s with phase := .stopped} else none

def start : State := ⟨0,.starting,false,[],[],[],[],[]⟩

variable {c : Config} {s t : State} {a : Action} {as : List Action}

inductive Does (c : Config) (s : State) : Action → State → Prop where
  | tick (d : Nat) : Does c s (.tick d) {s with now := s.now+d}
  | onShutdown (name : String) : Does c s (.onShutdown name) {s with hooks := s.hooks ++ [name]}
  | listens (starting : s.phase = .starting) : Does c s .listens {s with phase := .listening}
  | fails (starting : s.phase = .starting) : Does c s .fails (runShutdownHooks s)
  | serves (listening : s.phase = .listening) : Does c s (.registers true) {s with phase := .serving,listed := c.registers}
  | unregistered (listening : s.phase = .listening) : Does c s (.registers false) {s with phase := .closing none}
  | joins : Does c s .joins {s with callers := s.callers ++ [s.listed]}
  | pushes (i : Nat) : Does c s (.pushes i) {s with callers := s.callers.set i s.listed}
  | calls {i : Nat} (has : true ∈ s.callers) :
      Does c s (.calls i) {s with requests := s.requests ++ [if s.phase.listens then .inProgress else .refused]}
  | answers {j : Nat} (found : s.requests[j]? = some .inProgress) :
      Does c s (.answers j) {s with requests := s.requests.set j .answered}
  | leaves (serving : s.phase = .serving) : Does c s (.stop true) {deregister s true with phase := .leaving s.now}
  | quits {ok : Bool} (serving : s.phase = .serving) (not : ¬ (ok = true ∧ c.registers = true ∧ 0 < c.wait)) :
      Does c s (.stop ok) {deregister s ok with phase := .closing (some s.now)}
  | gaveUp {ok : Bool} (serving : s.phase = .serving) : Does c s (.gaveUp ok) (runShutdownHooks (deregister s ok))
  | closes {since : Nat} (leaving : s.phase = .leaving since) (waited : since + c.wait ≤ s.now) :
      Does c s .closes {s with phase := .closing (some s.now)}
  | drained {since : Option Nat} (closing : s.phase = .closing since)
      (ends : .inProgress ∉ s.requests ∨ ∃ t ∈ since, t + c.drain ≤ s.now) : Does c s .drained (runShutdownHooks s)
  | hook {h : String} {rest : List String} {e : Ended} (hooks : s.phase = .hooks (h::rest)) :
      Does c s (.hook e) {s with phase := .hooks rest,ran := s.ran ++ [(h,e)]}
  | returns (hooks : s.phase = .hooks []) : Does c s .returns {s with phase := .stopped}

theorem stepDoes (one : step c s a = some t) : Does c s a t := by
  cases a with
  | tick d =>
    cases Option.some.inj one
    exact .tick d
  | onShutdown name =>
    cases Option.some.inj one
    exact .onShutdown name
  | listens =>
    simp only [step] at one
    split at one <;> try contradiction
    cases Option.some.inj one
    exact .listens (by assumption)
  | fails =>
    simp only [step] at one
    split at one <;> try contradiction
    cases Option.some.inj one
    exact .fails (by assumption)
  | registers ok =>
    simp only [step] at one
    split at one <;> try contradiction
    rename_i listening
    cases ok with
    | true =>
      cases Option.some.inj one
      exact .serves listening
    | false =>
      cases Option.some.inj one
      exact .unregistered listening
  | joins =>
    cases Option.some.inj one
    exact .joins
  | pushes i =>
    simp only [step] at one
    split at one <;> try contradiction
    cases Option.some.inj one
    exact .pushes i
  | calls i =>
    simp only [step,bind,Option.bind_eq_some_iff] at one
    obtain ⟨has,found,last⟩ := one
    split at last <;> try contradiction
    rename_i holds
    subst holds
    cases Option.some.inj last
    exact .calls (List.mem_of_getElem? found)
  | answers j =>
    simp only [step,bind,Option.bind_eq_some_iff] at one
    obtain ⟨r,found,last⟩ := one
    split at last <;> try contradiction
    rename_i both
    obtain ⟨rfl,_⟩ := both
    cases Option.some.inj last
    exact .answers found
  | stop ok =>
    simp only [step] at one
    split at one <;> try contradiction
    rename_i serving
    split at one
    · rename_i all
      obtain ⟨rfl,_⟩ := all
      cases Option.some.inj one
      exact .leaves serving
    · rename_i not
      cases Option.some.inj one
      exact .quits serving not
  | gaveUp ok =>
    simp only [step] at one
    split at one <;> try contradiction
    cases Option.some.inj one
    exact .gaveUp (by assumption)
  | closes =>
    simp only [step] at one
    split at one <;> try contradiction
    rename_i leaving
    split at one <;> try contradiction
    cases Option.some.inj one
    exact .closes leaving (by assumption)
  | drained =>
    simp only [step] at one
    split at one <;> try contradiction
    rename_i closing
    split at one <;> try contradiction
    cases Option.some.inj one
    exact .drained closing (by assumption)
  | hook e =>
    simp only [step] at one
    split at one <;> try contradiction
    cases Option.some.inj one
    exact .hook (by assumption)
  | returns =>
    simp only [step] at one
    split at one <;> try contradiction
    cases Option.some.inj one
    exact .returns (by assumption)

section Hooks

def Phase.left : Phase → Option (List String)
  | .hooks rest => some rest
  | .stopped => some []
  | _ => none

def registered : List Action → List String
  | [] => []
  | .onShutdown name::rest => name::registered rest
  | _::rest => registered rest

def InTurn (s : State) : Prop := match s.phase.left with
  | none => s.taken = [] ∧ s.ran = []
  | some rest => s.ran.map Prod.fst ++ rest = s.taken.reverse

theorem inTurnSame (turn : InTurn s) (phase : t.phase.left = s.phase.left) (taken : t.taken = s.taken) (ran : t.ran = s.ran) :
    InTurn t := by
  unfold InTurn
  rw [phase,taken,ran]
  exact turn

theorem inTurnHooks (turn : InTurn s) (not : s.phase.left = none) : InTurn (runShutdownHooks s) := by
  unfold InTurn at turn
  rw [not] at turn
  show s.ran.map Prod.fst ++ s.hooks.reverse = s.hooks.reverse
  rw [turn.2]
  rfl

theorem inTurnStep (turn : InTurn s) (one : step c s a = some t) : InTurn t := by
  cases stepDoes one with
  | tick d => exact inTurnSame turn rfl rfl rfl
  | onShutdown name => exact inTurnSame turn rfl rfl rfl
  | listens starting => exact inTurnSame turn (by rw [starting]; rfl) rfl rfl
  | fails starting => exact inTurnHooks turn (by rw [starting]; rfl)
  | serves listening => exact inTurnSame turn (by rw [listening]; rfl) rfl rfl
  | unregistered listening => exact inTurnSame turn (by rw [listening]; rfl) rfl rfl
  | joins => exact inTurnSame turn rfl rfl rfl
  | pushes i => exact inTurnSame turn rfl rfl rfl
  | calls has => exact inTurnSame turn rfl rfl rfl
  | answers found => exact inTurnSame turn rfl rfl rfl
  | leaves serving => exact inTurnSame turn (by rw [serving]; rfl) rfl rfl
  | quits serving not => exact inTurnSame turn (by rw [serving]; rfl) rfl rfl
  | gaveUp serving => exact inTurnHooks (s := deregister s _) (inTurnSame turn rfl rfl rfl) (by simp [deregister,serving,Phase.left])
  | closes leaving waited => exact inTurnSame turn (by rw [leaving]; rfl) rfl rfl
  | drained closing ends => exact inTurnHooks turn (by rw [closing]; rfl)
  | @hook h rest e hooks =>
    unfold InTurn at turn
    rw [hooks] at turn
    have before : s.ran.map Prod.fst ++ h::rest = s.taken.reverse := turn
    show (s.ran ++ [(h,e)]).map Prod.fst ++ rest = s.taken.reverse
    rw [List.map_append,List.append_assoc]
    exact before
  | returns hooks => exact inTurnSame turn (by rw [hooks]; rfl) rfl rfl

theorem registeredStep (turn : InTurn s) (one : step c s a = some t) :
    t.taken ++ t.hooks = s.taken ++ s.hooks ++ registered [a] := by
  have begins (not : s.phase.left = none) : s.hooks ++ [] = s.taken ++ s.hooks ++ [] := by
    unfold InTurn at turn
    rw [not] at turn
    rw [turn.1,List.nil_append]
  have same : s.taken ++ s.hooks = s.taken ++ s.hooks ++ [] := (List.append_nil _).symm
  cases stepDoes one with
  | onShutdown name => exact (List.append_assoc _ _ _).symm
  | fails starting => exact begins (by rw [starting]; rfl)
  | gaveUp serving => exact begins (by rw [serving]; rfl)
  | drained closing ends => exact begins (by rw [closing]; rfl)
  | _ => exact same

theorem registeredRun (turn : InTurn s) (ran : run (step c) s as = some t) :
    t.taken ++ t.hooks = s.taken ++ s.hooks ++ registered as := by
  induction as generalizing s with
  | nil =>
    cases Option.some.inj ran
    exact (List.append_nil _).symm
  | cons a as ih =>
    obtain ⟨u,one,rest⟩ := runCons.mp ran
    have split : registered (a::as) = registered [a] ++ registered as := by cases a <;> rfl
    rw [ih (inTurnStep turn one) rest,registeredStep turn one,split,List.append_assoc]

theorem hooksLeft {rest : List String} (hooks : s.phase = .hooks rest) (es : List Ended) (each : es.length = rest.length) :
    ∃ t, run (step c) s (es.map .hook ++ [.returns]) = some t ∧ t.phase = .stopped ∧ t.ran = s.ran ++ rest.zip es := by
  induction rest generalizing s es with
  | nil =>
    cases List.length_eq_zero_iff.mp each
    have one : step c s .returns = some {s with phase := .stopped} := if_pos hooks
    exact ⟨_,runCons.mpr ⟨_,one,rfl⟩,rfl,(List.append_nil _).symm⟩
  | cons h rest ih =>
    obtain ⟨e,es,rfl⟩ := List.exists_cons_of_length_eq_add_one each
    have one : step c s (.hook e) = some {s with phase := .hooks rest,ran := s.ran ++ [(h,e)]} := by simp only [step,hooks]
    obtain ⟨t,ran,stopped,ended⟩ :=
      ih (s := {s with phase := .hooks rest,ran := s.ran ++ [(h,e)]}) rfl es (Nat.succ.inj each)
    exact ⟨t,runCons.mpr ⟨_,one,ran⟩,stopped,by rw [ended,List.append_assoc]; rfl⟩

theorem startTurn : InTurn start := ⟨rfl,rfl⟩

def gateway : Config := ⟨true,3,15⟩

def deploy : List Action :=
  [.onShutdown "mysql close",.onShutdown "redis close",.listens,.registers true,.joins,.joins,.calls 0,.stop true,.pushes 0,
    .calls 1,.tick 1,.pushes 1,.tick 2,.closes,.tick 4,.answers 0,.answers 1,.drained,.hook .failed]

def deployed : State :=
  ⟨7,.hooks ["mysql close"],false,[false,false],[.answered,.answered],[],["mysql close","redis close"],
    [("redis close",.failed)]⟩

theorem deployRan : run (step gateway) start deploy = some deployed := by decide +kernel

end Hooks
section Order
variable {delay work : Nat}

/- By now Nacos has told every caller, within delay of the leaving, and what was in progress when the listener
closed is answered, within work. -/
def Punctual (delay work : Nat) (s : State) (now : Nat) : Phase → Prop
  | .leaving since => true ∈ s.callers → now ≤ since + delay
  | .closing (some since) => .inProgress ∈ s.requests → now ≤ since + work
  | _ => True

instance punctualDecidable (delay work : Nat) (s : State) (now : Nat) : ∀ phase, Decidable (Punctual delay work s now phase)
  | .leaving since => inferInstanceAs (Decidable (true ∈ s.callers → now ≤ since + delay))
  | .closing (some since) => inferInstanceAs (Decidable (.inProgress ∈ s.requests → now ≤ since + work))
  | .closing none | .starting | .listening | .serving | .hooks _ | .stopped => isTrue trivial

def Timely (delay work : Nat) (s : State) : Action → Prop
  | .tick d => Punctual delay work s (s.now+d) s.phase
  | .stop ok => ok = true
  | .gaveUp _ => False
  | _ => True

instance timelyDecidable (delay work : Nat) (s : State) : ∀ a, Decidable (Timely delay work s a)
  | .tick d => inferInstanceAs (Decidable (Punctual delay work s (s.now+d) s.phase))
  | .stop ok => inferInstanceAs (Decidable (ok = true))
  | .gaveUp _ => isFalse id
  | .onShutdown _ | .listens | .fails | .registers _ | .joins | .pushes _ | .calls _ | .answers _ | .closes | .drained
  | .hook _ | .returns => isTrue trivial

def Phase.idle : Phase → Bool
  | .starting | .listening | .hooks _ | .stopped => true
  | _ => false

structure Orderly (c : Config) (delay work : Nat) (s : State) : Prop where
  registers : s.listed = true ∨ true ∈ s.callers → c.registers = true
  listed : s.listed = true → s.phase = .serving
  callers : true ∈ s.callers → s.phase = .serving ∨ ∃ since, s.phase = .leaving since ∧ s.now ≤ since + delay
  closing : ∀ since, s.phase = .closing (some since) → .inProgress ∈ s.requests → s.now ≤ since + work
  idle : s.phase.idle = true → .inProgress ∉ s.requests
  refused : .refused ∉ s.requests

theorem answeredLess {j : Nat} {r : Request} (other : r ≠ .answered) (mem : r ∈ s.requests.set j .answered) :
    r ∈ s.requests := (List.mem_or_eq_of_mem_set mem).resolve_right other

theorem orderlyTold {callers : List Bool} (o : Orderly c delay work s)
    (from' : true ∈ callers → true ∈ s.callers ∨ s.listed = true) : Orderly c delay work {s with callers := callers} where
  registers := fun either => o.registers (either.elim .inl (fun mem => (from' mem).symm))
  listed := o.listed
  callers := fun mem => (from' mem).elim o.callers (fun listed => .inl (o.listed listed))
  closing := o.closing
  idle := o.idle
  refused := o.refused

theorem noCallers (o : Orderly c delay work s) (not : s.phase ≠ .serving) (left : ∀ since, s.phase ≠ .leaving since) :
    true ∉ s.callers :=
  fun mem => (o.callers mem).elim not (fun ⟨since,leaving,_⟩ => left since leaving)

theorem orderlyTick {d : Nat} (o : Orderly c delay work s) (timely : Timely delay work s (.tick d)) :
    Orderly c delay work {s with now := s.now+d} where
  registers := o.registers
  listed := o.listed
  callers := by
    intro mem
    refine (o.callers mem).imp_right (fun ⟨since,leaving,_⟩ => ⟨since,leaving,?_⟩)
    simp only [Timely,leaving,Punctual] at timely
    exact timely mem
  closing := by
    intro since is mem
    have closing : s.phase = .closing (some since) := is
    simp only [Timely,closing,Punctual] at timely
    exact timely mem
  idle := o.idle
  refused := o.refused

theorem orderlyPast (phase : Phase) (o : Orderly c delay work s) (unlisted : s.listed = false) (none' : true ∉ s.callers)
    (closing : ∀ since, phase = .closing (some since) → s.now ≤ since + work)
    (idle : phase.idle = true → .inProgress ∉ s.requests) : Orderly c delay work {s with phase := phase} where
  registers := o.registers
  listed := fun listed => absurd listed (by simp [unlisted])
  callers := fun mem => absurd mem none'
  closing := fun since is _ => closing since is
  idle := idle
  refused := o.refused

theorem orderlyHooks (o : Orderly c delay work s) (unlisted : s.listed = false) (none' : true ∉ s.callers)
    (ends : .inProgress ∉ s.requests) : Orderly c delay work (runShutdownHooks s) := by
  have past := orderlyPast (.hooks s.hooks.reverse) o unlisted none' (fun since is => nomatch is) (fun _ => ends)
  exact ⟨past.registers,past.listed,past.callers,past.closing,past.idle,past.refused⟩

theorem orderlyStep (short : delay < c.wait) (quick : work < c.drain) (o : Orderly c delay work s)
    (timely : Timely delay work s a) (one : step c s a = some t) : Orderly c delay work t := by
  have unlisted (not : s.phase ≠ .serving) : s.listed = false := Bool.eq_false_iff.mpr (fun listed => not (o.listed listed))
  cases stepDoes one with
  | tick d => exact orderlyTick o timely
  | onShutdown name => exact ⟨o.registers,o.listed,o.callers,o.closing,o.idle,o.refused⟩
  | listens starting =>
    have before : true ∉ s.callers := noCallers o (by simp [starting]) (by simp [starting])
    exact orderlyPast .listening o (unlisted (by simp [starting])) before (fun since is => nomatch is)
      (fun _ => o.idle (by rw [starting]; rfl))
  | fails starting =>
    have before : true ∉ s.callers := noCallers o (by simp [starting]) (by simp [starting])
    exact orderlyHooks o (unlisted (by simp [starting])) before (o.idle (by rw [starting]; rfl))
  | serves listening =>
    have before : true ∉ s.callers := noCallers o (by simp [listening]) (by simp [listening])
    exact ⟨fun either => either.elim id (fun mem => absurd mem before),fun _ => rfl,fun _ => .inl rfl,
      (fun since is => nomatch is),(fun is => nomatch is),o.refused⟩
  | unregistered listening =>
    have before : true ∉ s.callers := noCallers o (by simp [listening]) (by simp [listening])
    exact orderlyPast (.closing none) o (unlisted (by simp [listening])) before (fun since is => nomatch is) (fun is => nomatch is)
  | joins =>
    refine orderlyTold o (fun mem => ?_)
    obtain old | new := List.mem_append.mp mem
    · exact .inl old
    · exact .inr (List.mem_singleton.mp new).symm
  | pushes i => exact orderlyTold o (fun mem => (List.mem_or_eq_of_mem_set mem).imp_right Eq.symm)
  | @calls i has =>
    have serving : s.phase.listens = true ∧ s.phase.idle = false ∧ ∀ since, s.phase ≠ .closing since := by
      obtain serving | ⟨since,leaving,_⟩ := o.callers has
      · simp [serving,Phase.listens,Phase.idle]
      · simp [leaving,Phase.listens,Phase.idle]
    rw [serving.1]
    refine ⟨o.registers,o.listed,o.callers,fun since is => absurd is (serving.2.2 _),fun is => ?_,fun mem => ?_⟩
    · exact absurd is (by simp [serving.2.1])
    · obtain old | new := List.mem_append.mp mem
      · exact o.refused old
      · cases List.mem_singleton.mp new
  | answers found =>
    exact ⟨o.registers,o.listed,o.callers,fun since is mem => o.closing since is (answeredLess (by simp) mem),
      fun is mem => o.idle is (answeredLess (by simp) mem),fun mem => o.refused (answeredLess (by simp) mem)⟩
  | leaves serving =>
    have off : (deregister s true).listed = false := Bool.and_false _
    exact ⟨fun either => o.registers (either.elim (fun listed => absurd listed (by simp [off])) .inr),
      fun listed => absurd listed (by simp [off]),fun _ => .inr ⟨s.now,rfl,Nat.le_add_right _ _⟩,
      (fun since is => nomatch is),(fun is => nomatch is),o.refused⟩
  | quits serving not =>
    have ok : _ = true := timely
    subst ok
    have off : c.registers = false := by
      cases on : c.registers with
      | false => rfl
      | true => exact absurd ⟨rfl,on,by omega⟩ not
    have before : true ∉ s.callers := fun mem => absurd (o.registers (.inr mem)) (by simp [off])
    have left : (deregister s true).listed = false := Bool.and_false _
    refine ⟨fun either => either.elim (fun listed => absurd listed (by simp [left])) (fun mem => absurd mem before),
      fun listed => absurd listed (by simp [left]),fun mem => absurd mem before,fun u is _ => ?_,
      (fun is => nomatch is),o.refused⟩
    cases is
    exact Nat.le_add_right _ _
  | gaveUp serving => exact absurd timely id
  | @closes since leaving waited =>
    have before : true ∉ s.callers := by
      intro mem
      obtain serving | ⟨u,is,soon⟩ := o.callers mem
      · cases serving.symm.trans leaving
      · cases is.symm.trans leaving
        omega
    refine orderlyPast (.closing (some s.now)) o (unlisted (by simp [leaving])) before (fun u is => ?_) (fun is => nomatch is)
    cases is
    exact Nat.le_add_right _ _
  | @drained since closing ends =>
    have before : true ∉ s.callers := noCallers o (by simp [closing]) (by simp [closing])
    have none' : .inProgress ∉ s.requests := by
      intro mem
      obtain done | ⟨u,is,late⟩ := ends
      · exact done mem
      · cases Option.mem_def.mp is
        have soon := o.closing u closing mem
        omega
    exact orderlyHooks o (unlisted (by simp [closing])) before none'
  | @hook h rest e hooks =>
    have before : true ∉ s.callers := noCallers o (by simp [hooks]) (by simp [hooks])
    have past := orderlyPast (.hooks rest) o (unlisted (by simp [hooks])) before (fun since is => nomatch is)
      (fun _ => o.idle (by rw [hooks]; rfl))
    exact ⟨past.registers,past.listed,past.callers,past.closing,past.idle,past.refused⟩
  | returns hooks =>
    have before : true ∉ s.callers := noCallers o (by simp [hooks]) (by simp [hooks])
    exact orderlyPast .stopped o (unlisted (by simp [hooks])) before (fun since is => nomatch is)
      (fun _ => o.idle (by rw [hooks]; rfl))

theorem startOrderly : Orderly c delay work start :=
  ⟨fun either => either.elim (fun listed => nomatch listed) (fun mem => absurd mem List.not_mem_nil),(fun listed => nomatch listed),
    fun mem => absurd mem List.not_mem_nil,(fun _ is => nomatch is),fun _ => List.not_mem_nil,List.not_mem_nil⟩

theorem stopLosesNone (short : delay < c.wait) (quick : work < c.drain)
    (along : Along (step c) (Timely delay work) start as) (ran : run (step c) start as = some s) :
    (s.listed = true → s.phase = .serving) ∧ .refused ∉ s.requests ∧
      (s.ran ≠ [] ∨ s.phase = .stopped → ∀ r ∈ s.requests, r = .answered) := by
  have o : Orderly c delay work s := runKeeps (fun o timely one => orderlyStep short quick o timely one) startOrderly along ran
  have turn : InTurn s := reachableKeeps inTurnStep startTurn ⟨as,ran⟩
  refine ⟨o.listed,o.refused,fun ends r mem => ?_⟩
  have idle : s.phase.idle = true := by
    obtain some' | stopped := ends
    · cases phase : s.phase with
      | hooks rest => rfl
      | stopped => rfl
      | _ =>
        unfold InTurn at turn
        rw [phase] at turn
        exact absurd turn.2 some'
    · rw [stopped]
      rfl
  cases r with
  | answered => rfl
  | inProgress => exact absurd mem (o.idle idle)
  | refused => exact absurd mem o.refused

theorem deployAnswered : deployed.requests.all (fun r => r = .answered) = true := by
  have along : Along (step gateway) (Timely 1 4) start deploy := by decide +kernel
  obtain ⟨_,_,answered⟩ := stopLosesNone (by decide) (by decide) along deployRan
  exact List.all_eq_true.mpr (fun r mem => decide_eq_true (answered (.inl (by decide)) r mem))

end Order
end DevkitCommon.Hertzx.Shutdown
