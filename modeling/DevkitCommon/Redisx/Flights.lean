import DevkitCommon.Redisx.Cache

/-! The flights of a Cache: who leads one, who waits for it, and that each ends with its
leader, unless the load panics or T is an interface type and the value its nil. -/
namespace DevkitCommon.Redisx.Cache
open Machine
variable {V : Type}

def Point.leads : Point V → Bool
  | .load | .finish | .forget => true
  | _ => false

def Call.over (call : Call V) : Prop := ∃ answer version, call.point = .ended answer version

def State.brought (s : State V) (c : Nat) : Option (Outcome V) := do
  let call ← s.calls[c]?
  let l ← call.joined
  let leader ← s.calls[l]?
  let loaded ← leader.loaded
  some loaded.outcome

structure AlwaysEnds (env : Env V) (s : State V) : Prop where
  noEntry : ∀ replica c, s.flights replica = some c → ∃ call : Call V, s.calls[c]? = some call ∧ ¬call.over
  released : ∀ (w : Nat) (waiter : Call V) (l : Nat), s.calls[w]? = some waiter → waiter.point = .wait l →
    ∃ leader : Call V, s.calls[l]? = some leader ∧ (leader.over → ∃ t, step env s (.wake w) = some t)
  given : ∀ (w : Nat) (waiter : Call V) (l : Nat) answer version, s.calls[w]? = some waiter → waiter.joined = some l →
    waiter.point = .ended answer version →
    ∃ outcome, s.brought w = some outcome ∧ answer = outcome.answer ∧ answer ≠ .panicked
  anew : ∀ (c : Nat) (call : Call V), s.calls[c]? = some call → call.point = .join →
    (∀ (l : Nat) (leader : Call V), s.calls[l]? = some leader → leader.replica = call.replica → leader.point.leads = false) →
    step env s (.join c) = some ((s.setCall c {call with point := .load}).setFlight call.replica (some c))

def Safe (env : Env V) (s : State V) : Action V → Prop
  | .load _ outcome => outcome ≠ .panics
  | .wake w => ∀ v, s.brought w = some (.value v) → env.isNil v = false
  | _ => True

def Call.Holds (call : Call V) : Prop := ∃ loaded, call.loaded = some loaded ∧ loaded.outcome ≠ .panics

def Call.Shape (call : Call V) : Prop :=
  match call.point with
  | .get | .join | .direct | .load => call.loaded = none ∧ call.done = false ∧ call.joined = none
  | .finish => call.Holds ∧ call.done = false ∧ call.joined = none
  | .forget | .store _ => call.Holds ∧ call.done = true ∧ call.joined = none
  | .wait l => call.loaded = none ∧ call.done = false ∧ call.joined = some l
  | .ended _ _ => call.done = true → call.Holds

structure Led (s : State V) : Prop where
  shape : ∀ {c : Nat} {call : Call V}, s.calls[c]? = some call → call.Shape
  leader : ∀ {c : Nat} {call : Call V}, s.calls[c]? = some call → call.point.leads = true → s.flights call.replica = some c

variable {env : Env V} {s t : State V} {a : Action V}

theorem lookedCases (env : Env V) (cached : Option Entry) (ok : Bool) :
    looked env cached ok = .direct ∨ looked env cached ok = .join ∨
      ∃ answer version, looked env cached ok = .ended answer version := by
  unfold looked
  split
  · exact .inl rfl
  · split
    · exact .inr (.inl rfl)
    · split
      · exact .inr (.inr ⟨_,_,rfl⟩)
      · split
        · exact .inr (.inr ⟨_,_,rfl⟩)
        · exact .inr (.inl rfl)
        · exact .inr (.inr ⟨_,_,rfl⟩)

theorem leftCases (env : Env V) (loaded : Loaded V) :
    (∃ raw, left env loaded = .store raw) ∨ ∃ answer version, left env loaded = .ended answer version := by
  unfold left
  split
  · split
    · split
      · exact .inl ⟨_,rfl⟩
      · exact .inr ⟨_,_,rfl⟩
      · exact .inr ⟨_,_,rfl⟩
    · exact .inr ⟨_,_,rfl⟩
  · split
    · exact .inl ⟨_,rfl⟩
    · exact .inr ⟨_,_,rfl⟩
  · exact .inr ⟨_,_,rfl⟩

theorem ledSet {c : Nat} {call next : Call V} (inv : Led s) (found : s.calls[c]? = some call) (same : next.replica = call.replica)
    (shape : next.Shape) (leads : next.point.leads = true → call.point.leads = true) :
    Led (s.setCall c next) where
  shape := by
    intro i other mem
    obtain ⟨-,rfl⟩ | ⟨-,mem⟩ := setFound mem
    · exact shape
    · exact inv.shape mem
  leader := by
    intro i other mem lead
    obtain ⟨rfl,rfl⟩ | ⟨-,mem⟩ := setFound mem
    · rw [same]; exact inv.leader found (leads lead)
    · exact inv.leader mem lead

theorem ledFrame (inv : Led s) (calls : t.calls = s.calls) (flights : t.flights = s.flights) : Led t where
  shape := fun mem => inv.shape (calls ▸ mem)
  leader := fun mem lead => flights ▸ inv.leader (calls ▸ mem) lead

theorem callLed (inv : Led s) (replica since : Nat) :
    Led {s with calls := s.calls ++ [⟨replica,since,if env.redis then .get else .join,none,false,none⟩]} where
  shape := by
    intro i other mem
    obtain mem | ⟨-,rfl⟩ := concatFrom mem
    · exact inv.shape mem
    · unfold Call.Shape; cases env.redis <;> exact ⟨rfl,rfl,rfl⟩
  leader := by
    intro i other mem lead
    obtain mem | ⟨-,rfl⟩ := concatFrom mem
    · exact inv.leader mem lead
    · revert lead; cases env.redis <;> exact fun lead => Bool.noConfusion lead

theorem leadsLed {c : Nat} {call : Call V} (inv : Led s) (found : s.calls[c]? = some call) (here : call.point = .join)
    (free : s.flights call.replica = none) :
    Led ((s.setCall c {call with point := .load}).setFlight call.replica (some c)) where
  shape := by
    have shape := inv.shape found
    simp only [Call.Shape,here] at shape
    intro i other mem
    obtain ⟨-,rfl⟩ | ⟨-,mem⟩ := setFound mem
    · exact shape
    · exact inv.shape mem
  leader := by
    intro i other mem lead
    obtain ⟨rfl,rfl⟩ | ⟨-,mem⟩ := setFound mem
    · exact Function.update_self ..
    · have own := inv.leader mem lead
      have apart : other.replica ≠ call.replica := fun same => by rw [same,free] at own; cases own
      exact (Function.update_of_ne apart ..).trans own

theorem forgetLed {c : Nat} {call : Call V} (inv : Led s) (found : s.calls[c]? = some call) (here : call.point = .forget)
    (loaded : Loaded V) :
    Led ((s.setCall c {call with point := left env loaded}).setFlight call.replica none) := by
  have shape := inv.shape found
  simp only [Call.Shape,here] at shape
  have own := inv.leader found (by rw [here]; rfl)
  obtain ⟨next,still⟩ : Call.Shape {call with point := left env loaded} ∧ (left env loaded).leads = false := by
    obtain ⟨raw,next⟩ | ⟨answer,version,next⟩ := leftCases env loaded
    · rw [next]; exact ⟨shape,rfl⟩
    · rw [next]; exact ⟨fun _ => shape.1,rfl⟩
  constructor
  · intro i other mem
    obtain ⟨-,rfl⟩ | ⟨-,mem⟩ := setFound mem
    · exact next
    · exact inv.shape mem
  · intro i other mem lead
    obtain ⟨rfl,rfl⟩ | ⟨differs,mem⟩ := setFound mem
    · exact Bool.noConfusion (still.symm.trans lead)
    · have theirs := inv.leader mem lead
      have apart : other.replica ≠ call.replica := fun same => by
        rw [same,own] at theirs
        exact differs (Option.some.inj theirs).symm
      exact (Function.update_of_ne apart ..).trans theirs

theorem stepLed (inv : Led s) (one : step env s a = some t) : Led t := by
  cases stepDoes one with
  | commit | expire | del => exact ledFrame inv rfl rfl
  | drop | leave => exact ledFrame inv rfl rfl
  | call replica => exact callLed inv replica s.settled
  | leads found here free => exact leadsLed inv found here free
  | @forget c call loaded found here read => exact forgetLed inv found here loaded
  | @get c call ok found here =>
    have shape := inv.shape found
    simp only [Call.Shape,here] at shape
    obtain next | next | ⟨answer,version,next⟩ := lookedCases env s.cached ok
    all_goals
      rw [next]
      refine ledSet inv found rfl ?_ (fun lead => Bool.noConfusion lead)
    · exact shape
    · exact shape
    · exact fun done => Bool.noConfusion (shape.2.1.symm.trans done)
  | @joins c call leader found here flies =>
    have shape := inv.shape found
    simp only [Call.Shape,here] at shape
    exact ledSet inv found rfl ⟨shape.1,shape.2.1,rfl⟩ (fun lead => Bool.noConfusion lead)
  | @direct c call outcome found here =>
    have shape := inv.shape found
    simp only [Call.Shape,here] at shape
    exact ledSet inv found rfl (fun done => Bool.noConfusion (shape.2.1.symm.trans done)) (fun lead => Bool.noConfusion lead)
  | @panics c call found here =>
    have shape := inv.shape found
    simp only [Call.Shape,here] at shape
    exact ledSet inv found rfl (fun done => Bool.noConfusion (shape.2.1.symm.trans done)) (fun lead => Bool.noConfusion lead)
  | @loads c call outcome found here returns =>
    have shape := inv.shape found
    simp only [Call.Shape,here] at shape
    exact ledSet inv found rfl ⟨⟨_,rfl,returns⟩,shape.2⟩ (fun _ => by rw [here]; rfl)
  | @finish c call found here =>
    have shape := inv.shape found
    simp only [Call.Shape,here] at shape
    exact ledSet inv found rfl ⟨shape.1,rfl,shape.2.2⟩ (fun _ => by rw [here]; rfl)
  | @store c call loaded raw reply found here read =>
    have shape := inv.shape found
    simp only [Call.Shape,here] at shape
    have moved : Led (s.setCall c {call with point := .ended loaded.outcome.answer loaded.version}) :=
      ledSet inv found rfl (fun _ => shape.1) (fun lead => Bool.noConfusion lead)
    exact ledFrame moved rfl rfl
  | @wake c call l leader loaded found here its read done =>
    have shape := inv.shape found
    simp only [Call.Shape,here] at shape
    exact ledSet inv found rfl (fun done => Bool.noConfusion (shape.2.1.symm.trans done)) (fun lead => Bool.noConfusion lead)

theorem noCall {c : Nat} {call : Call V} (found : (State.init : State V).calls[c]? = some call) : False := by
  simp [State.init] at found

theorem reachableLed (ok : Reachable (step env) State.init s) : Led s :=
  reachableKeeps stepLed ⟨fun mem => (noCall mem).elim,fun mem => (noCall mem).elim⟩ ok

def Call.Airborne (call : Call V) : Prop := call.point = .load ∨ call.point = .finish ∨ call.done = true

/- While no load has panicked: every flight is of a call that leads it, every waiter waits
for one that will let it go or has, and who has been let go was given what was loaded. -/
structure Flown (s : State V) : Prop where
  led : Led s
  flown : ∀ {replica c}, s.flights replica = some c →
    ∃ call : Call V, s.calls[c]? = some call ∧ call.replica = replica ∧ call.point.leads = true
  waits : ∀ {c : Nat} {call : Call V} {l : Nat}, s.calls[c]? = some call → call.point = .wait l →
    ∃ leader : Call V, s.calls[l]? = some leader ∧ leader.Airborne
  given : ∀ {c : Nat} {call : Call V} {l : Nat} {answer version}, s.calls[c]? = some call → call.joined = some l →
    call.point = .ended answer version →
    ∃ (leader : Call V) (loaded : Loaded V), s.calls[l]? = some leader ∧ leader.loaded = some loaded ∧
      answer = loaded.outcome.answer ∧ answer ≠ .panicked

structure Keeps (call next : Call V) : Prop where
  airborne : call.Airborne → next.Airborne
  loaded : ∀ {loaded}, call.loaded = some loaded → next.loaded = some loaded

theorem keepsFound {calls : List (Call V)} {c i : Nat} {call next other : Call V} (found : calls[c]? = some call)
    (keeps : Keeps call next) (mem : calls[i]? = some other) :
    ∃ later, (calls.set c next)[i]? = some later ∧ Keeps other later := by
  obtain ⟨rfl,mem'⟩ | ⟨-,mem'⟩ := setStays (i := c) (a := next) mem
  · cases Option.some.inj (found.symm.trans mem)
    exact ⟨next,mem',keeps⟩
  · exact ⟨other,mem',⟨id,id⟩⟩

theorem leaderFound {calls : List (Call V)} {c l : Nat} {call next leader : Call V} (found : calls[c]? = some call)
    (same : next.replica = call.replica) (stays : call.point.leads = true → next.point.leads = true)
    (its : calls[l]? = some leader) (leads : leader.point.leads = true) :
    ∃ later, (calls.set c next)[l]? = some later ∧ later.replica = leader.replica ∧ later.point.leads = true := by
  obtain ⟨rfl,its'⟩ | ⟨-,its'⟩ := setStays (i := c) (a := next) its
  · cases Option.some.inj (found.symm.trans its)
    exact ⟨next,its',same,stays leads⟩
  · exact ⟨leader,its',rfl,leads⟩

theorem flownFrame (inv : Flown s) (calls : t.calls = s.calls) (flights : t.flights = s.flights) : Flown t where
  led := ledFrame inv.led calls flights
  flown := by rw [calls,flights]; exact inv.flown
  waits := by rw [calls]; exact inv.waits
  given := by rw [calls]; exact inv.given

theorem waitersSet {c : Nat} {call next : Call V} (inv : Flown s) (found : s.calls[c]? = some call) (keeps : Keeps call next)
    (waits : ∀ l, next.point = .wait l → ∃ leader : Call V, s.calls[l]? = some leader ∧ leader.Airborne)
    (given : ∀ l answer version, next.joined = some l → next.point = .ended answer version →
      ∃ (leader : Call V) (loaded : Loaded V), s.calls[l]? = some leader ∧ leader.loaded = some loaded ∧
        answer = loaded.outcome.answer ∧ answer ≠ .panicked) :
    (∀ {i : Nat} {other : Call V} {l : Nat}, (s.calls.set c next)[i]? = some other → other.point = .wait l →
      ∃ leader : Call V, (s.calls.set c next)[l]? = some leader ∧ leader.Airborne) ∧
    ∀ {i : Nat} {other : Call V} {l : Nat} {answer version}, (s.calls.set c next)[i]? = some other → other.joined = some l →
      other.point = .ended answer version →
      ∃ (leader : Call V) (loaded : Loaded V), (s.calls.set c next)[l]? = some leader ∧ leader.loaded = some loaded ∧
        answer = loaded.outcome.answer ∧ answer ≠ .panicked := by
  constructor
  · intro i other l mem at'
    obtain ⟨leader,its,flies⟩ : ∃ leader : Call V, s.calls[l]? = some leader ∧ leader.Airborne := by
      obtain ⟨-,rfl⟩ | ⟨-,mem⟩ := setFound mem
      · exact waits l at'
      · exact inv.waits mem at'
    obtain ⟨later,its,kept⟩ := keepsFound found keeps its
    exact ⟨later,its,kept.airborne flies⟩
  · intro i other l answer version mem joined at'
    obtain ⟨leader,loaded,its,read,same⟩ : ∃ (leader : Call V) (loaded : Loaded V), s.calls[l]? = some leader ∧
        leader.loaded = some loaded ∧ answer = loaded.outcome.answer ∧ answer ≠ .panicked := by
      obtain ⟨-,rfl⟩ | ⟨-,mem⟩ := setFound mem
      · exact given l answer version joined at'
      · exact inv.given mem joined at'
    obtain ⟨later,its,kept⟩ := keepsFound found keeps its
    exact ⟨later,loaded,its,kept.loaded read,same⟩

theorem flownSet {c : Nat} {call next : Call V} (inv : Flown s) (led : Led (s.setCall c next)) (found : s.calls[c]? = some call)
    (same : next.replica = call.replica) (stays : call.point.leads = true → next.point.leads = true)
    (keeps : Keeps call next)
    (waits : ∀ l, next.point = .wait l → ∃ leader : Call V, s.calls[l]? = some leader ∧ leader.Airborne)
    (given : ∀ l answer version, next.joined = some l → next.point = .ended answer version →
      ∃ (leader : Call V) (loaded : Loaded V), s.calls[l]? = some leader ∧ leader.loaded = some loaded ∧
        answer = loaded.outcome.answer ∧ answer ≠ .panicked) : Flown (s.setCall c next) where
  led := led
  flown := by
    intro replica l flies
    obtain ⟨leader,its,theirs,leads⟩ := inv.flown flies
    obtain ⟨later,its,kept,leads⟩ := leaderFound found same stays its leads
    exact ⟨later,its,kept.trans theirs,leads⟩
  waits := (waitersSet inv found keeps waits given).1
  given := (waitersSet inv found keeps waits given).2

theorem keepsIdle {call next : Call V} (idle : call.point.leads = false) (done : next.done = call.done)
    (loaded : next.loaded = call.loaded) : Keeps call next where
  airborne := by
    rintro (here | here | here)
    · rw [here] at idle; cases idle
    · rw [here] at idle; cases idle
    · exact .inr (.inr (done.trans here))
  loaded := fun read => loaded.trans read

theorem flownAlone {c : Nat} {call next : Call V} (inv : Flown s) (led : Led (s.setCall c next))
    (found : s.calls[c]? = some call) (same : next.replica = call.replica)
    (stays : call.point.leads = true → next.point.leads = true) (keeps : Keeps call next)
    (alone : next.joined = none) (moves : ∀ l, next.point ≠ .wait l) : Flown (s.setCall c next) :=
  flownSet inv led found same stays keeps (fun l here => absurd here (moves l))
    (fun l answer version joined => by cases alone.symm.trans joined)

theorem doneHolds {call : Call V} (shape : call.Shape) (done : call.done = true) : call.Holds := by
  cases point : call.point with
  | forget | store => simp only [Call.Shape,point] at shape; exact shape.1
  | ended => simp only [Call.Shape,point] at shape; exact shape done
  | get | join | direct | load | finish | wait =>
    simp only [Call.Shape,point] at shape
    exact Bool.noConfusion (shape.2.1.symm.trans done)

theorem flownIdle {c : Nat} {call next : Call V} (inv : Flown s) (led : Led (s.setCall c next))
    (found : s.calls[c]? = some call) (idle : call.point.leads = false) (alone : call.joined = none)
    (moves : ∀ l, next.point ≠ .wait l)
    (same : next = {call with point := next.point}) : Flown (s.setCall c next) := by
  refine flownAlone inv led found ?_ (fun leads => Bool.noConfusion (idle.symm.trans leads)) (keepsIdle idle ?_ ?_) ?_ moves
  all_goals rw [same]
  exact alone

theorem leaderAirborne {replica l : Nat} (inv : Flown s) (flies : s.flights replica = some l) :
    ∃ leader : Call V, s.calls[l]? = some leader ∧ leader.Airborne := by
  obtain ⟨lead,its,-,leads⟩ := inv.flown flies
  have theirs := inv.led.shape its
  refine ⟨lead,its,?_⟩
  cases point : lead.point with
  | load => exact .inl point
  | finish => exact .inr (.inl point)
  | forget =>
    simp only [Call.Shape,point] at theirs
    exact .inr (.inr theirs.2.1)
  | get | join | direct | store | wait | ended => rw [point] at leads; cases leads

theorem callFlown {since replica : Nat} (inv : Flown s)
    (led : Led {s with calls := s.calls ++ [⟨replica,since,if env.redis then .get else .join,none,false,none⟩]}) :
    Flown {s with calls := s.calls ++ [⟨replica,since,if env.redis then .get else .join,none,false,none⟩]} where
  led := led
  flown := by
    intro r l flies
    obtain ⟨leader,its,rest⟩ := inv.flown flies
    exact ⟨leader,concatStays its,rest⟩
  waits := by
    intro i other l mem at'
    obtain mem | ⟨-,rfl⟩ := concatFrom mem
    · obtain ⟨leader,its,flies⟩ := inv.waits mem at'
      exact ⟨leader,concatStays its,flies⟩
    · dsimp only at at'
      split at at' <;> cases at'
  given := by
    intro i other l answer version mem joined at'
    obtain mem | ⟨-,rfl⟩ := concatFrom mem
    · obtain ⟨leader,loaded,its,rest⟩ := inv.given mem joined at'
      exact ⟨leader,loaded,concatStays its,rest⟩
    · cases joined

theorem leadsFlown {c : Nat} {call : Call V} (inv : Flown s)
    (led : Led ((s.setCall c {call with point := .load}).setFlight call.replica (some c)))
    (found : s.calls[c]? = some call) (here : call.point = .join) :
    Flown ((s.setCall c {call with point := .load}).setFlight call.replica (some c)) := by
  have shape := inv.led.shape found
  simp only [Call.Shape,here] at shape
  have idle : call.point.leads = false := by rw [here]; rfl
  have keeps : Keeps call {call with point := .load} := keepsIdle idle rfl rfl
  have waiters := waitersSet inv found keeps (fun l at' => by cases at')
    (fun l answer version joined => by cases shape.2.2.symm.trans joined)
  refine ⟨led,?_,waiters.1,waiters.2⟩
  intro replica l flies
  by_cases same : replica = call.replica
  · subst same
    cases (Function.update_self ..).symm.trans flies
    have short := (List.getElem?_eq_some_iff.mp found).1
    exact ⟨_,List.getElem?_set_self short,rfl,rfl⟩
  · obtain ⟨leader,its,theirs,leads⟩ := inv.flown ((Function.update_of_ne same ..).symm.trans flies)
    have stays : call.point.leads = true → Point.leads (V := V) .load = true := fun _ => rfl
    obtain ⟨later,its,kept,leads⟩ : ∃ later, (s.calls.set c {call with point := .load})[l]? = some later ∧
        later.replica = leader.replica ∧ later.point.leads = true := leaderFound found rfl stays its leads
    exact ⟨later,its,kept.trans theirs,leads⟩

theorem loadsFlown {c : Nat} {call : Call V} {outcome : Outcome V} (inv : Flown s)
    (led : Led (s.setCall c {call with point := .finish,loaded := some ⟨s.source,outcome⟩}))
    (found : s.calls[c]? = some call) (here : call.point = .load) :
    Flown (s.setCall c {call with point := .finish,loaded := some ⟨s.source,outcome⟩}) := by
  have shape := inv.led.shape found
  simp only [Call.Shape,here] at shape
  refine flownAlone inv led found rfl (fun _ => rfl) ⟨fun _ => .inr (.inl rfl),?_⟩ shape.2.2 (fun l at' => by cases at')
  intro loaded read
  cases shape.1.symm.trans read

theorem forgetFlown {c : Nat} {call : Call V} {loaded : Loaded V} (inv : Flown s)
    (led : Led ((s.setCall c {call with point := left env loaded}).setFlight call.replica none))
    (found : s.calls[c]? = some call) (here : call.point = .forget) :
    Flown ((s.setCall c {call with point := left env loaded}).setFlight call.replica none) := by
  have shape := inv.led.shape found
  simp only [Call.Shape,here] at shape
  have keeps : Keeps call {call with point := left env loaded} := ⟨fun _ => .inr (.inr shape.2.1),id⟩
  have waiters := waitersSet inv found keeps (fun l at' => by
      obtain ⟨raw,next⟩ | ⟨answer,version,next⟩ := leftCases env loaded <;> cases next.symm.trans at')
    (fun l answer version joined => by cases shape.2.2.symm.trans joined)
  refine ⟨led,?_,waiters.1,waiters.2⟩
  intro replica l flies
  by_cases same : replica = call.replica
  · subst same
    cases (Function.update_self ..).symm.trans flies
  · have before := (Function.update_of_ne same ..).symm.trans flies
    obtain ⟨leader,its,theirs,leads⟩ := inv.flown before
    have apart : l ≠ c := by
      rintro rfl
      cases Option.some.inj (found.symm.trans its)
      exact same theirs.symm
    exact ⟨leader,(List.getElem?_set_ne apart.symm).trans its,theirs,leads⟩

theorem wakeFlown {c l : Nat} {call leader : Call V} {loaded : Loaded V} (inv : Flown s)
    (led : Led (s.setCall c {call with point := .ended (released env loaded.outcome) loaded.version}))
    (found : s.calls[c]? = some call) (here : call.point = .wait l) (its : s.calls[l]? = some leader)
    (read : leader.loaded = some loaded) (done : leader.done = true)
    (safe : ∀ v, s.brought c = some (.value v) → env.isNil v = false) :
    Flown (s.setCall c {call with point := .ended (released env loaded.outcome) loaded.version}) := by
  have shape := inv.led.shape found
  simp only [Call.Shape,here] at shape
  have idle : call.point.leads = false := by rw [here]; rfl
  refine flownSet inv led found rfl (fun leads => Bool.noConfusion (idle.symm.trans leads)) (keepsIdle idle rfl rfl)
    (fun l at' => by cases at') ?_
  intro l' answer version joined at'
  cases shape.2.2.symm.trans joined
  cases at'
  have brought : s.brought c = some loaded.outcome := by
    simp only [State.brought,found,shape.2.2,its,read,bind,Option.bind]
  refine ⟨leader,loaded,its,read,?_⟩
  obtain ⟨x,same,holds⟩ := doneHolds (inv.led.shape its) done
  cases Option.some.inj (read.symm.trans same)
  cases outcome : loaded.outcome with
  | value v =>
    rw [outcome] at brought
    simp only [released,safe v brought,Bool.false_eq_true,if_false,Outcome.answer,ne_eq,reduceCtorEq,not_false_iff,and_self]
  | notFound => exact ⟨rfl,fun bad => by cases bad⟩
  | failed => exact ⟨rfl,fun bad => by cases bad⟩
  | panics => exact absurd outcome holds

theorem stepFlown (inv : Flown s) (safe : Safe env s a) (one : step env s a = some t) : Flown t := by
  have led := stepLed inv.led one
  cases stepDoes one with
  | commit | expire | del => exact flownFrame inv rfl rfl
  | drop | leave => exact flownFrame inv rfl rfl
  | call replica => exact callFlown inv led
  | leads found here free => exact leadsFlown inv led found here
  | panics found here => exact absurd rfl safe
  | loads found here returns => exact loadsFlown inv led found here
  | forget found here read => exact forgetFlown inv led found here
  | wake found here its read done => exact wakeFlown inv led found here its read done safe
  | @get c call ok found here =>
    have shape := inv.led.shape found
    simp only [Call.Shape,here] at shape
    refine flownIdle inv led found (by rw [here]; rfl) shape.2.2 ?_ rfl
    intro l at'
    obtain next | next | ⟨answer,version,next⟩ := lookedCases env s.cached ok
    all_goals cases next.symm.trans at'
  | @joins c call leader found here flies =>
    have idle : call.point.leads = false := by rw [here]; rfl
    refine flownSet inv led found rfl (fun leads => Bool.noConfusion (idle.symm.trans leads)) (keepsIdle idle rfl rfl) ?_
      (fun l answer version _ at' => by cases at')
    intro l at'
    cases at'
    exact leaderAirborne inv flies
  | @direct c call outcome found here =>
    have shape := inv.led.shape found
    simp only [Call.Shape,here] at shape
    exact flownIdle inv led found (by rw [here]; rfl) shape.2.2 (fun l at' => by cases at') rfl
  | @finish c call found here =>
    have shape := inv.led.shape found
    simp only [Call.Shape,here] at shape
    exact flownAlone inv led found rfl (fun _ => rfl) ⟨fun _ => .inr (.inr rfl),id⟩ shape.2.2
       (fun l at' => by cases at')
  | @store c call loaded raw reply found here read =>
    have shape := inv.led.shape found
    simp only [Call.Shape,here] at shape
    have ended : Led (s.setCall c {call with point := .ended loaded.outcome.answer loaded.version}) :=
      ledFrame led rfl rfl
    exact flownFrame (flownIdle inv ended found (by rw [here]; rfl) shape.2.2 (fun l at' => by cases at') rfl) rfl rfl

theorem flownEnds (inv : Flown s) : AlwaysEnds env s where
  noEntry := by
    intro replica c flies
    obtain ⟨call,found,-,leads⟩ := inv.flown flies
    refine ⟨call,found,?_⟩
    rintro ⟨answer,version,here⟩
    rw [here] at leads
    cases leads
  released := by
    intro w waiter l found here
    obtain ⟨leader,its,flies⟩ := inv.waits found here
    refine ⟨leader,its,?_⟩
    rintro ⟨answer,version,finished⟩
    have done : leader.done = true := by
      obtain early | early | done := flies
      · cases finished.symm.trans early
      · cases finished.symm.trans early
      · exact done
    obtain ⟨loaded,read,-⟩ := doneHolds (inv.led.shape its) done
    exact ⟨s.setCall w {waiter with point := .ended (released env loaded.outcome) loaded.version},
      by simp only [step,found,here,its,read,done,bind,Option.bind,if_true]⟩
  given := by
    intro w waiter l answer version found joined here
    obtain ⟨leader,loaded,its,read,same⟩ := inv.given found joined here
    exact ⟨loaded.outcome,by simp only [State.brought,found,joined,its,read,bind,Option.bind],same⟩
  anew := by
    intro c call found here idle
    have free : s.flights call.replica = none := by
      cases flies : s.flights call.replica with
      | none => rfl
      | some l =>
        obtain ⟨leader,its,theirs,leads⟩ := inv.flown flies
        exact Bool.noConfusion ((idle l leader its theirs).symm.trans leads)
    simp only [step,found,here,free,bind,Option.bind]

theorem initFlown : Flown (State.init : State V) where
  led := ⟨fun mem => (noCall mem).elim,fun mem => (noCall mem).elim⟩
  flown := fun flies => by cases flies
  waits := fun mem => (noCall mem).elim
  given := fun mem => (noCall mem).elim

theorem unsafeBreaks (ok : Reachable (step env) State.init s) (unsafe' : ¬Safe env s a)
    (one : step env s a = some t) : ¬AlwaysEnds env t := by
  have led := reachableLed ok
  intro ends
  cases stepDoes one with
  | @panics c call found here =>
    have own := led.leader found (by rw [here]; rfl)
    obtain ⟨later,its,still⟩ := ends.noEntry call.replica c own
    have short := (List.getElem?_eq_some_iff.mp found).1
    cases Option.some.inj ((List.getElem?_set_self short).symm.trans its)
    exact still ⟨_,_,rfl⟩
  | loads found here returns => exact unsafe' returns
  | @wake c call l leader loaded found here its read done =>
    have shape := led.shape found
    simp only [Call.Shape,here] at shape
    have brought : s.brought c = some loaded.outcome := by
      simp only [State.brought,found,shape.2.2,its,read,bind,Option.bind]
    obtain ⟨v,same,isNil⟩ : ∃ v, loaded.outcome = .value v ∧ env.isNil v = true := by
      refine Classical.byContradiction fun none => unsafe' fun v gave => ?_
      have same := Option.some.inj (brought.symm.trans gave)
      exact eq_false_of_ne_true fun isNil => none ⟨v,same,isNil⟩
    have short := (List.getElem?_eq_some_iff.mp found).1
    obtain ⟨outcome,-,-,fine⟩ := ends.given c _ l _ _ (List.getElem?_set_self short) shape.2.2 rfl
    exact fine (by simp only [same,released,isNil,if_true])
  | commit | expire | del | drop | leave | call | get | leads | joins | direct | finish | forget | store =>
    exact unsafe' trivial

theorem flightsEnd (env : Env V) (as : List (Action V)) :
    (∀ front back t, as = front ++ back → run (step env) State.init front = some t → AlwaysEnds env t) ↔
      Along (step env) (Safe env) State.init as :=
  everyIff (fun along ok => flownEnds (runKeeps stepFlown initFlown along ok)) unsafeBreaks as

theorem panicKept : ¬∀ (env : Env Nat) (as : List (Action Nat)) (t : State Nat),
    run (step env) State.init as = some t → AlwaysEnds env t := by
  intro all
  have ends := all ⟨false,false,fun _ => false,fun _ => .fails,fun _ => .fails⟩
    [.call 0,.join 0,.load 0 .panics,.call 0,.join 1] _ rfl
  obtain ⟨call,found,still⟩ := ends.noEntry 0 0 rfl
  cases Option.some.inj found
  exact still ⟨_,_,rfl⟩

end DevkitCommon.Redisx.Cache
