import DevkitCommon.Redisx.Flights

/-! What a Get may return after a Del: no value a load read before the commit of the Del,
as long as no such value is written back after it or taken over from a flight. -/
namespace DevkitCommon.Redisx.Cache
open Machine
variable {V : Type}

def Call.read (call : Call V) : Option Nat :=
  match call.loaded with
  | some ⟨version,.value _⟩ => some version
  | _ => none

def State.read (s : State V) (c : Nat) : Option Nat := s.calls[c]?.bind Call.read

def Point.returns : Point V → Option Nat
  | .ended (.value _) version | .ended (.unencodable _) version => some version
  | _ => none

def Fresh (s : State V) : Prop :=
  ∀ call ∈ s.calls, ∀ version ∈ call.point.returns, call.since ≤ version

def Orderly (s : State V) : Action V → Prop
  | .store c reply => reply.ran = true → ∀ version ∈ s.read c, s.dropped ≤ version
  | .join c => ∀ call ∈ s.calls[c]?, ∀ l ∈ s.flights call.replica, ∀ version ∈ s.read l, call.since ≤ version
  | _ => True

instance decidableOrderly (s : State V) (a : Action V) : Decidable (Orderly s a) := by
  unfold Orderly
  cases a <;> infer_instance

structure Call.Current (env : Env V) (s : State V) (call : Call V) : Prop where
  began : call.since ≤ s.settled
  redis : call.point = .get → env.redis = true
  loaded : ∀ {loaded}, call.loaded = some loaded → call.since ≤ loaded.version
  writes : ∀ {raw}, call.point = .store raw →
    call.read.isSome = true ∨ env.negative = true ∧ raw = tombstone
  waits : ∀ {l}, call.point = .wait l → ∀ version ∈ s.read l, call.since ≤ version
  fresh : ∀ version ∈ call.point.returns, call.since ≤ version

structure Current (env : Env V) (s : State V) : Prop where
  sourced : s.settled ≤ s.source
  settled : env.redis = true → s.settled ≤ s.dropped
  dropped : s.dropped ≤ s.source
  cached : ∀ {e}, s.cached = some e → s.dropped ≤ e.version ∨ env.negative = true ∧ e.raw = tombstone
  dels : ∀ {d : Nat} {del : Del}, s.dels[d]? = some del → del.version ≤ s.source ∧
    (del.point = .answered true → env.redis = true → del.version ≤ s.dropped)
  calls : ∀ {c : Nat} {call : Call V}, s.calls[c]? = some call → call.Current env s

variable {env : Env V} {s t : State V} {a : Action V}

theorem readFrom {s : State V} {c version : Nat} (mem : version ∈ s.read c) :
    ∃ call : Call V, s.calls[c]? = some call ∧ version ∈ call.read := Option.bind_eq_some_iff.mp mem

theorem readAt {s : State V} {c version : Nat} {call : Call V} (found : s.calls[c]? = some call)
    (mem : version ∈ call.read) : version ∈ s.read c := Option.bind_eq_some_iff.mpr ⟨call,found,mem⟩

theorem currentStays {call : Call V} (inv : call.Current env s) (settled : s.settled ≤ t.settled)
    (reads : ∀ {l version : Nat}, version ∈ t.read l → version ∈ s.read l ∨ s.settled ≤ version) :
    call.Current env t where
  began := Nat.le_trans inv.began settled
  redis := inv.redis
  loaded := inv.loaded
  writes := inv.writes
  waits := by
    intro l here version mem
    obtain old | new := reads mem
    · exact inv.waits here version old
    · exact Nat.le_trans inv.began new
  fresh := inv.fresh

theorem callsStay {c : Nat} {call : Call V} (found : t.calls[c]? = some call) (inv : Current env s)
    (same : t.calls = s.calls) (settled : s.settled ≤ t.settled) : call.Current env t := by
  refine currentStays (inv.calls (same ▸ found)) settled fun mem => .inl ?_
  rwa [State.read,same] at mem

theorem callsSet {c i : Nat} {call next other : Call V} (mem : t.calls[i]? = some other) (inv : Current env s)
    (found : s.calls[c]? = some call) (same : t.calls = s.calls.set c next) (settled : t.settled = s.settled)
    (reads : ∀ version ∈ next.read, version ∈ call.read ∨ s.settled ≤ version) (own : next.Current env s) :
    other.Current env t := by
  have before : other.Current env s := by
    rw [same] at mem
    obtain ⟨-,rfl⟩ | ⟨-,mem⟩ := setFound mem
    · exact own
    · exact inv.calls mem
  refine currentStays before (Nat.le_of_eq settled.symm) fun {l version} read => ?_
  obtain ⟨later,its,read⟩ := readFrom read
  rw [same] at its
  obtain ⟨rfl,rfl⟩ | ⟨-,its⟩ := setFound its
  · exact (reads version read).imp_left (readAt found)
  · exact .inl (readAt its read)

theorem currentSet {c : Nat} {call next : Call V} (inv : Current env s) (found : s.calls[c]? = some call)
    (reads : ∀ version ∈ next.read, version ∈ call.read ∨ s.settled ≤ version) (own : next.Current env s) :
    Current env (s.setCall c next) where
  sourced := inv.sourced
  settled := inv.settled
  dropped := inv.dropped
  cached := inv.cached
  dels := inv.dels
  calls := fun mem => callsSet mem inv found rfl rfl reads own

theorem currentFlight (inv : Current env s) (replica : Nat) (flight : Option Nat) :
    Current env (s.setFlight replica flight) where
  sourced := inv.sourced
  settled := inv.settled
  dropped := inv.dropped
  cached := inv.cached
  dels := inv.dels
  calls := fun mem => callsStay mem inv rfl (Nat.le_refl _)

def Point.plain : Point V → Bool
  | .get | .store _ | .wait _ => false
  | _ => true

theorem currentMoves {c : Nat} {call next : Call V} (inv : Current env s) (found : s.calls[c]? = some call)
    (since : next.since = call.since) (loaded : next.loaded = call.loaded) (returns : next.point.returns = none)
    (plain : next.point.plain = true) : Current env (s.setCall c next) := by
  have old := inv.calls found
  refine currentSet inv found (fun version mem => .inl (by rwa [Call.read,loaded] at mem)) ?_
  constructor
  · exact since ▸ old.began
  · exact fun here => by rw [here] at plain; cases plain
  · intro x read
    rw [since]
    exact old.loaded (loaded ▸ read)
  · exact fun here => by rw [here] at plain; cases plain
  · exact fun here => by rw [here] at plain; cases plain
  · intro version mem
    rw [returns] at mem
    cases mem

theorem currentEnds {c : Nat} {call : Call V} {answer : Answer V} {version : Nat} (inv : Current env s)
    (found : s.calls[c]? = some call)
    (fresh : (Point.ended answer version).returns = some version → call.since ≤ version) :
    Current env (s.setCall c {call with point := .ended answer version}) := by
  have old := inv.calls found
  refine currentSet inv found (fun version mem => .inl mem) ?_
  constructor
  · exact old.began
  · exact fun here => by cases here
  · exact old.loaded
  · exact fun here => by cases here
  · exact fun here => by cases here
  · intro v mem
    cases answer with
    | value | unencodable =>
      cases Option.some.inj mem
      exact fresh rfl
    | notFound | failed | panicked => cases mem

theorem leftStores {loaded : Loaded V} {raw : String} (next : left env loaded = .store raw) :
    (∃ v, loaded.outcome = .value v) ∨ loaded.outcome = .notFound ∧ env.negative = true ∧ raw = tombstone := by
  unfold left at next
  split at next
  · rename_i v outcome
    exact .inl ⟨v,outcome⟩
  · rename_i outcome
    split at next <;> cases next
    rename_i marks
    exact .inr ⟨outcome,marks.2,rfl⟩
  · cases next

theorem leftEnds {loaded : Loaded V} {answer : Answer V} {version : Nat}
    (next : left env loaded = .ended answer version) : version = loaded.version := by
  unfold left at next
  split at next
  · split at next
    · split at next <;> cases next <;> rfl
    · cases next; rfl
  · split at next <;> cases next
    rfl
  · cases next; rfl

theorem readVersion {call : Call V} {loaded : Loaded V} {version : Nat} (read : call.loaded = some loaded)
    (mem : version ∈ call.read) : version = loaded.version := by
  obtain ⟨v,outcome⟩ := loaded
  rw [Call.read,read] at mem
  cases outcome with
  | value => exact (Option.some.inj mem).symm
  | notFound | failed | panics => cases mem

theorem firstCurrent (env : Env V) (s : State V) (replica : Nat) :
    Call.Current env s ⟨replica,s.settled,if env.redis then .get else .join,none,false,none⟩ where
  began := Nat.le_refl _
  redis := by
    intro here
    cases redis : env.redis with
    | true => rfl
    | false => rw [redis] at here; cases here
  loaded := fun read => by cases read
  writes := by intro raw here; dsimp only at here; split at here <;> cases here
  waits := by intro l here; dsimp only at here; split at here <;> cases here
  fresh := by intro version mem; dsimp only at mem; split at mem <;> cases mem

theorem lookedReturns {cached : Option Entry} {ok : Bool} {answer : Answer V} {version : Nat}
    (looks : looked env cached ok = .ended answer version) (returns : (Point.ended answer version).returns = some version) :
    ∃ e, cached = some e ∧ version = e.version ∧ ¬(e.raw = tombstone ∧ env.negative = true) := by
  unfold looked at looks
  split at looks <;> try contradiction
  split at looks <;> try contradiction
  rename_i e
  split at looks
  · cases looks; cases returns
  · rename_i plain
    split at looks <;> cases looks
    · exact ⟨e,rfl,rfl,plain⟩
    · cases returns

section Gets
variable {c : Nat} {call : Call V} {loaded : Loaded V}

theorem callCurrent (inv : Current env s) (replica : Nat) : Current env {s with
    calls := s.calls ++ [⟨replica,s.settled,if env.redis then .get else .join,none,false,none⟩]} where
  sourced := inv.sourced
  settled := inv.settled
  dropped := inv.dropped
  cached := inv.cached
  dels := inv.dels
  calls := by
    intro i other mem
    have before : other.Current env s := by
      obtain mem | ⟨-,rfl⟩ := concatFrom mem
      · exact inv.calls mem
      · exact firstCurrent env s replica
    refine currentStays before (Nat.le_refl _) fun read => ?_
    obtain ⟨later,its,read⟩ := readFrom read
    obtain its | ⟨-,rfl⟩ := concatFrom its
    · exact .inl (readAt its read)
    · cases read

theorem getCurrent (inv : Current env s) (ok : Bool) (found : s.calls[c]? = some call) (here : call.point = .get) :
    Current env (s.setCall c {call with point := looked env s.cached ok}) := by
  have old := inv.calls found
  obtain next | next | ⟨answer,version,next⟩ := lookedCases env s.cached ok
  · rw [next]
    exact currentMoves inv found rfl rfl rfl rfl
  · rw [next]
    exact currentMoves inv found rfl rfl rfl rfl
  · rw [next]
    refine currentEnds inv found fun returns => ?_
    obtain ⟨e,cached,rfl,plain⟩ := lookedReturns next returns
    have kept : s.dropped ≤ e.version := by
      obtain kept | marker := inv.cached cached
      · exact kept
      · exact absurd marker.symm plain
    exact Nat.le_trans old.began (Nat.le_trans (inv.settled (old.redis here)) kept)

theorem joinsCurrent {leader : Nat} (inv : Current env s) (orderly : Orderly s (.join c)) (found : s.calls[c]? = some call)
    (flies : s.flights call.replica = some leader) :
    Current env (s.setCall c {call with point := .wait leader,joined := some leader}) := by
  have old := inv.calls found
  refine currentSet inv found (fun version mem => .inl mem) ?_
  refine ⟨old.began,(fun at' => by cases at'),old.loaded,(fun at' => by cases at'),?_,(fun _ mem => by cases mem)⟩
  intro l at' version read
  cases at'
  exact orderly call found leader flies version read

theorem loadsCurrent (inv : Current env s) (outcome : Outcome V) (found : s.calls[c]? = some call) :
    Current env (s.setCall c {call with point := .finish,loaded := some ⟨s.source,outcome⟩}) := by
  have old := inv.calls found
  refine currentSet inv found ?_ ?_
  · intro version mem
    cases outcome with
    | value v => cases Option.some.inj mem; exact .inr inv.sourced
    | notFound | failed | panics => cases mem
  · refine ⟨old.began,(fun at' => by cases at'),?_,(fun at' => by cases at'),(fun at' => by cases at'),
      (fun _ mem => by cases mem)⟩
    intro loaded read
    cases Option.some.inj read
    exact Nat.le_trans old.began inv.sourced

theorem forgetCurrent (inv : Current env s) (found : s.calls[c]? = some call) (read : call.loaded = some loaded) :
    Current env (s.setCall c {call with point := left env loaded}) := by
  have old := inv.calls found
  obtain ⟨raw,next⟩ | ⟨answer,version,next⟩ := leftCases env loaded
  · rw [next]
    refine currentSet inv found (fun version mem => .inl mem) ?_
    refine ⟨old.began,(fun at' => by cases at'),old.loaded,?_,(fun at' => by cases at'),(fun _ mem => by cases mem)⟩
    intro text at'
    cases at'
    obtain ⟨v,outcome⟩ | ⟨outcome,negative,marker⟩ := leftStores next
    · exact .inl (by rw [Call.read,read,show loaded = ⟨loaded.version,.value v⟩ from outcome ▸ rfl]; rfl)
    · exact .inr ⟨negative,marker⟩
  · rw [next]
    refine currentEnds inv found fun returns => ?_
    rw [leftEnds next]
    exact old.loaded read

theorem storeCurrent {raw : String} {reply : Reply} (inv : Current env s) (orderly : Orderly s (.store c reply))
    (found : s.calls[c]? = some call) (here : call.point = .store raw) (read : call.loaded = some loaded) :
    Current env ({s with cached := if reply.ran then some ⟨loaded.version,raw⟩ else s.cached}.setCall c
      {call with point := .ended loaded.outcome.answer loaded.version}) := by
  have old := inv.calls found
  have moved : Current env (s.setCall c {call with point := .ended loaded.outcome.answer loaded.version}) :=
    currentEnds inv found fun _ => old.loaded read
  refine {
    sourced := moved.sourced
    settled := moved.settled
    dropped := moved.dropped
    cached := ?_
    dels := moved.dels
    calls := fun mem => callsStay mem moved rfl (Nat.le_refl _)}
  intro e cached
  cases ran : reply.ran with
  | false =>
    rw [State.setCall,ran] at cached
    exact inv.cached cached
  | true =>
    rw [State.setCall,ran] at cached
    cases Option.some.inj cached
    obtain value | marker := old.writes here
    · obtain ⟨version,mem⟩ := Option.isSome_iff_exists.mp value
      rw [← readVersion read mem]
      exact .inl (orderly ran version (readAt found mem))
    · exact .inr marker

theorem wakeCurrent {l : Nat} {leader : Call V} (inv : Current env s) (found : s.calls[c]? = some call)
    (here : call.point = .wait l) (its : s.calls[l]? = some leader) (read : leader.loaded = some loaded) :
    Current env (s.setCall c {call with point := .ended (released env loaded.outcome) loaded.version}) := by
  refine currentEnds inv found fun returns => ?_
  cases outcome : loaded.outcome with
  | value v =>
    have mem : loaded.version ∈ leader.read := by
      rw [Call.read,read,show loaded = ⟨loaded.version,.value v⟩ from outcome ▸ rfl]; rfl
    exact (inv.calls found).waits here _ (readAt its mem)
  | notFound | failed | panics => rw [outcome] at returns; cases returns

end Gets
section Dels
variable {d : Nat} {del : Del}

theorem delCurrent (inv : Current env s) : Current env {s with
    dels := s.dels ++ [⟨s.source,if env.redis then .pending else .answered true⟩]} where
  sourced := inv.sourced
  settled := inv.settled
  dropped := inv.dropped
  cached := inv.cached
  dels := by
    intro d del mem
    obtain mem | ⟨-,rfl⟩ := concatFrom mem
    · exact inv.dels mem
    · refine ⟨Nat.le_refl _,fun answered redis => ?_⟩
      rw [redis] at answered
      cases answered
  calls := fun mem => callsStay mem inv rfl (Nat.le_refl _)

theorem dropCurrent (inv : Current env s) (reply : Reply) (found : s.dels[d]? = some del) : Current env ({s with
    cached := if reply.ran then none else s.cached
    dropped := if reply.ran then max s.dropped del.version else s.dropped}.setDel d
      {del with point := .answered (reply == Reply.ok)}) := by
  have old := inv.dels found
  have grows : s.dropped ≤ if reply.ran then max s.dropped del.version else s.dropped := by
    split
    · exact Nat.le_max_left ..
    · exact Nat.le_refl _
  refine {
    sourced := inv.sourced
    settled := fun redis => Nat.le_trans (inv.settled redis) grows
    dropped := ?_
    cached := ?_
    dels := ?_
    calls := fun mem => callsStay mem inv rfl (Nat.le_refl _)}
  · dsimp only [State.setDel]
    split
    · exact Nat.max_le.mpr ⟨inv.dropped,old.1⟩
    · exact inv.dropped
  · intro e cached
    cases ran : reply.ran with
    | true => rw [State.setDel,ran] at cached; cases cached
    | false =>
      rw [State.setDel,ran] at cached
      exact inv.cached cached
  · intro i other mem
    obtain ⟨-,rfl⟩ | ⟨-,mem⟩ := setFound mem
    · refine ⟨old.1,fun answered _ => ?_⟩
      have ok : reply = .ok := by simpa using answered
      subst ok
      exact Nat.le_max_right ..
    · exact ⟨(inv.dels mem).1,fun answered redis => Nat.le_trans ((inv.dels mem).2 answered redis) grows⟩

theorem leaveCurrent {ok : Bool} (inv : Current env s) (found : s.dels[d]? = some del) (here : del.point = .answered ok) :
    Current env ({s with settled := if ok then max s.settled del.version else s.settled}.setDel d
      {del with point := .returned}) := by
  have old := inv.dels found
  have grows : s.settled ≤ if ok then max s.settled del.version else s.settled := by
    split
    · exact Nat.le_max_left ..
    · exact Nat.le_refl _
  refine {
    sourced := ?_
    settled := ?_
    dropped := inv.dropped
    cached := inv.cached
    dels := ?_
    calls := fun mem => callsStay mem inv rfl grows}
  · dsimp only [State.setDel]
    split
    · exact Nat.max_le.mpr ⟨inv.sourced,old.1⟩
    · exact inv.sourced
  · intro redis
    dsimp only [State.setDel]
    split
    · rename_i good
      rw [good] at here
      exact Nat.max_le.mpr ⟨inv.settled redis,old.2 here redis⟩
    · exact inv.settled redis
  · intro i other mem
    obtain ⟨-,rfl⟩ | ⟨-,mem⟩ := setFound mem
    · exact ⟨old.1,fun answered => by cases answered⟩
    · exact inv.dels mem

end Dels

theorem stepCurrent (inv : Current env s) (orderly : Orderly s a) (one : step env s a = some t) : Current env t := by
  cases stepDoes one with
  | commit =>
    exact {
      sourced := Nat.le_succ_of_le inv.sourced
      settled := inv.settled
      dropped := Nat.le_succ_of_le inv.dropped
      cached := inv.cached
      dels := fun found => ⟨Nat.le_succ_of_le (inv.dels found).1,(inv.dels found).2⟩
      calls := fun found => callsStay found inv rfl (Nat.le_refl _)}
  | expire =>
    exact {
      sourced := inv.sourced
      settled := inv.settled
      dropped := inv.dropped
      cached := fun found => by cases found
      dels := inv.dels
      calls := fun found => callsStay found inv rfl (Nat.le_refl _)}
  | call replica => exact callCurrent inv replica
  | get ok found here => exact getCurrent inv ok found here
  | leads found here free =>
    refine currentFlight ?_ _ _
    exact currentMoves inv found rfl rfl rfl rfl
  | joins found here flies => exact joinsCurrent inv orderly found flies
  | direct outcome found here => exact currentEnds inv found fun _ => Nat.le_trans (inv.calls found).began inv.sourced
  | panics found here => exact currentEnds inv found fun _ => Nat.le_trans (inv.calls found).began inv.sourced
  | @loads c call outcome found here returns => exact loadsCurrent inv outcome found
  | finish found here => exact currentMoves inv found rfl rfl rfl rfl
  | forget found here read => exact currentFlight (forgetCurrent inv found read) _ _
  | store reply found here read => exact storeCurrent inv orderly found here read
  | wake found here its read done => exact wakeCurrent inv found here its read
  | del => exact delCurrent inv
  | drop reply found here => exact dropCurrent inv reply found
  | leave found here => exact leaveCurrent inv found here

theorem initCurrent (env : Env V) : Current env State.init where
  sourced := Nat.le_refl _
  settled := fun _ => Nat.le_refl _
  dropped := Nat.le_refl _
  cached := fun found => by cases found
  dels := fun found => by simp [State.init] at found
  calls := fun found => (noCall found).elim

theorem staysFresh {env : Env V} {as : List (Action V)} {t : State V}
    (orderly : Along (step env) Orderly State.init as) (ok : run (step env) State.init as = some t) : Fresh t := by
  have inv := runKeeps stepCurrent (initCurrent env) orderly ok
  intro call mem version returns
  obtain ⟨c,found⟩ := List.mem_iff_getElem?.mp mem
  exact (inv.calls found).fresh version returns

instance decidableFresh (s : State V) : Decidable (Fresh s) := by unfold Fresh; infer_instance

def digits : Env Nat where
  redis := true
  negative := true
  isNil := fun _ => false
  marshal := fun v => .text (toString v)
  unmarshal := fun raw => match (List.range 10).find? (fun v => toString v == raw) with
    | some v => .value v
    | none => .fails

def reload : List (Action Nat) :=
  [.call 0,.get 0 true,.join 0,.load 0 (.value 7),.finish 0,.forget 0,.store 0 .ok,.commit,.del,.drop 0 .ok,.leave 0,
    .call 0,.get 1 true,.join 1,.load 1 (.value 8),.finish 1,.forget 1,.store 1 .ok,.call 1,.get 2 true]

theorem reloaded : ∃ t, run (step digits) State.init reload = some t ∧ Fresh t := by
  have runs : (run (step digits) State.init reload).isSome = true := by decide
  obtain ⟨t,ok⟩ := Option.isSome_iff_exists.mp runs
  exact ⟨t,ok,staysFresh (by decide) ok⟩

/- A load that is on its way at the Del writes its old value back after it. -/
def lateStore : List (Action Nat) :=
  [.call 0,.get 0 true,.join 0,.load 0 (.value 7),.finish 0,.forget 0,.commit,.del,.drop 0 .ok,.leave 0,.store 0 .ok,
    .call 0,.get 1 true]

theorem writtenBack : ¬∀ (env : Env Nat) (as : List (Action Nat)) (t : State Nat),
    run (step env) State.init as = some t → Fresh t := by
  intro all
  have facts : (run (step digits) State.init lateStore).map (fun t => decide (Fresh t)) = some false := by
    decide
  obtain ⟨t,ok,stale⟩ := Option.map_eq_some_iff.mp facts
  exact of_decide_eq_false stale (all digits lateStore t ok)

end DevkitCommon.Redisx.Cache
