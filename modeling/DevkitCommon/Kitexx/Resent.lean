import DevkitCommon.Kitexx.Execution

/-! At most one execution under an idempotency key. The client of redisx.Open keeps
go-redis' default of three retries: a command whose answer is lost is sent again, and
Redis may run it twice. A second Del finds whatever is under the key by then. -/
namespace DevkitCommon.Kitexx
open Machine Redis
variable {ρ δ : Type}

/- once is a step as before, its command sent for the last time. again: Redis runs the
command the call waits for, the answer is lost, and the client sends it again. -/
inductive Exchange (ρ : Type) where
  | once (a : Action ρ)
  | again (c : Nat)

def effect (env : Env ρ δ) (s : State ρ δ) (c : Nat) : Option (Store String (Kept δ)) := do
  let call ← s.calls[c]?
  let key ← call.request.key env
  match call.point with
  | .setNX => some (setNX s.keys s.clock key (.pending c) idempotencyTTL)
  | .get => some s.keys
  | .del _ => some (del s.keys key)
  | .store _ data => some (set s.keys s.clock key (.result data) idempotencyTTL)
  | _ => none

def sentStep (env : Env ρ δ) (s : State ρ δ) : Exchange ρ → Option (State ρ δ)
  | .once a => step env s a
  | .again c => (effect env s c).map (fun keys => {s with keys := keys})

def Exchange.runs : Exchange ρ → Option Nat
  | .again c => some c
  | .once (.setNX c reply) | .once (.get c reply) | .once (.del c reply) | .once (.store c reply) =>
    if reply.ran then some c else none
  | .once _ => none

/- owner: the call whose SETNX took the key, until a Del runs. gave: the calls whose Del
has run. -/
structure Past where
  owner : Option Nat
  gave : List Nat
  deriving DecidableEq, Repr

section Claims
variable (env : Env ρ δ) (k : String)

def claims (s : State ρ δ) (c : Nat) (h : Past) : Past :=
  match s.calls[c]? with
  | none => h
  | some call =>
    if call.request.key env = some k then
      match call.point with
      | .setNX => if (Redis.get s.keys s.clock k).isSome then h else {h with owner := some c}
      | .del _ => ⟨none,c::h.gave⟩
      | _ => h
    else h

def noted (s : State ρ δ) (a : Exchange ρ) (h : Past) : Past :=
  match a.runs with
  | some c => claims env k s c h
  | none => h

def pastStep : State ρ δ × Past → Exchange ρ → Option (State ρ δ × Past) :=
  recording (sentStep env) (noted env k)

def Gives (s : State ρ δ) (a : Exchange ρ) (c : Nat) : Prop :=
  a.runs = some c ∧ ∃ call o, s.calls[c]? = some call ∧ Of env k call ∧ call.point = .del o

def Point.isDel : Point ρ δ → Bool
  | .del _ => true
  | _ => false

instance (s : State ρ δ) (a : Exchange ρ) (c : Nat) : Decidable (Gives env k s a c) :=
  decidable_of_iff (a.runs = some c ∧ (s.calls[c]?).any (fun call =>
    decide (call.request.key env = some k) && call.point.isDel) = true) <| by
    refine and_congr_right (fun _ => ?_)
    rw [Option.any_eq_true]
    constructor
    · rintro ⟨call,found,both⟩
      obtain ⟨under,here⟩ := Bool.and_eq_true_iff.mp both
      have same : call.request.key env = some k := of_decide_eq_true under
      cases point : call.point <;> simp only [point,Point.isDel,Bool.false_eq_true] at here
      exact ⟨call,_,found,same,point⟩
    · rintro ⟨call,o,found,under,here⟩
      have same : call.request.key env = some k := under
      exact ⟨call,found,Bool.and_eq_true_iff.mpr ⟨decide_eq_true same,by rw [here]; rfl⟩⟩

def Alone (s : State ρ δ × Past) (a : Exchange ρ) : Prop :=
  ∀ c ∈ s.2.gave, Gives env k s.1 a c → s.2.owner = none
instance (s a) : Decidable (Alone env k s a) := by unfold Alone; infer_instance

def DelsOwn (s : State ρ δ) (a : Exchange ρ) : Prop :=
  ∀ c, Gives env k s a c → ∀ j, Redis.get s.keys s.clock k = some (.pending j) → j = c

def Holder (gave : List Nat) (c : Nat) (x : Call ρ δ) : Prop :=
  Of env k x ∧ x.point.holds = true ∧ ((∃ o, x.point = .del o) → c ∉ gave)

structure Owned (s : State ρ δ × Past) : Prop where
  holder : ∀ (i : Nat) (x : Call ρ δ), s.1.calls[i]? = some x → Holder env k s.2.gave i x → s.2.owner = some i
  free : s.2.owner = none ↔ s.1.keys k = none
  mark : ∀ i, (s.1.keys k).map Entry.value = some (.pending i) → s.2.owner = some i
  settled : ∀ (i : Nat) (x : Call ρ δ) (r : ρ), s.1.calls[i]? = some x → x.outcome = some (.ok r) →
    x.point.after = true
  success : ∀ (i : Nat) (x : Call ρ δ) (r : ρ), s.1.calls[i]? = some x → Of env k x →
    x.outcome = some (.ok r) → s.2.owner = some i

inductive Ran (s : State ρ δ) (h : Past) (c : Nat) :
    Store String (Kept δ) → Past → Prop where
  | apart {keys} (same : keys k = s.keys k) : Ran s h c keys h
  | took {keys} (free : s.keys k = none) (mark : (keys k).map Entry.value = some (.pending c)) :
      Ran s h c keys {h with owner := some c}
  | gave {keys call o} (found : s.calls[c]? = some call) (under : Of env k call) (here : call.point = .del o)
      (gone : keys k = none) : Ran s h c keys ⟨none,c::h.gave⟩
  | stored {keys call r data} (found : s.calls[c]? = some call) (under : Of env k call)
      (here : call.point = .store r data) (kept : (keys k).map Entry.value = some (.result data)) :
      Ran s h c keys h

end Claims

variable {env : Env ρ δ} {k : String} {s t : State ρ δ} {h : Past} {a : Exchange ρ} {c i : Nat}
  {call call' x : Call ρ δ} {keys : Store String (Kept δ)}

theorem effectRuns (within : (s.keys k).all (Entry.live s.clock) = true) (runs : effect env s c = some keys) :
    Ran env k s h c keys (claims env k s c h) := by
  simp only [effect,bind,Option.bind_eq_some_iff] at runs
  obtain ⟨call,found,key,under,last⟩ := runs
  simp only [claims,found]
  by_cases same : key = k
  · subst same
    rw [if_pos under]
    cases here : call.point <;> simp only [here] at last ⊢ <;> try contradiction
    case setNX =>
      cases Option.some.inj last
      cases raw : s.keys key with
      | none =>
        have free : Redis.get s.keys s.clock key = none := getNone raw
        rw [free]
        exact .took raw (setNXFree free)
      | some e =>
        have live : e.live s.clock = true := by simpa only [raw,Option.all_some] using within
        rw [getLive raw,live,if_pos rfl]
        exact .apart (by rw [setNXTaken raw live])
    case get =>
      cases Option.some.inj last
      exact .apart rfl
    case del =>
      cases Option.some.inj last
      exact .gave found under here delSame
    case store =>
      cases Option.some.inj last
      exact .stored found under here (by rw [setSame]; rfl)
  · have other : call.request.key env ≠ some k := fun mine => same (Option.some.inj (under.symm.trans mine))
    rw [if_neg other]
    have differs : k ≠ key := fun eq => same eq.symm
    cases here : call.point <;> simp only [here] at last <;> try contradiction
    all_goals
      cases Option.some.inj last
      exact .apart (by simp [differs])

theorem gaveOwn (inv : Owned env k (s,h)) (alone : c ∈ h.gave → h.owner = none) {o : Outcome ρ}
    (found : s.calls[c]? = some call) (under : Of env k call) (here : call.point = .del o) :
    h.owner = none ∨ h.owner = some c := by
  by_cases again : c ∈ h.gave
  · exact .inl (alone again)
  · exact .inr (inv.holder c call found ⟨under,by rw [here]; rfl,fun _ => again⟩)

theorem ownedKeys (inv : Owned env k (s,h)) {h' : Past} (ran : Ran env k s h c keys h')
    (alone : c ∈ h.gave → ∀ call o, s.calls[c]? = some call → Of env k call → call.point = .del o →
      h.owner = none) : Owned env k ({s with keys := keys},h') := by
  cases ran with
  | apart same => exact ⟨inv.holder,by simpa only [same] using inv.free,by simpa only [same] using inv.mark,
      inv.settled,inv.success⟩
  | took free mark =>
    have nobody : h.owner = none := inv.free.mpr free
    constructor
    · intro i x found holds
      have owner := inv.holder i x found holds
      rw [nobody] at owner
      contradiction
    · constructor
      · exact nofun
      · intro gone
        rw [show keys k = none from gone] at mark
        contradiction
    · intro i own
      cases Kept.pending.inj (Option.some.inj (mark.symm.trans own))
      rfl
    · exact inv.settled
    · intro i x r found under ok
      have owner := inv.success i x r found under ok
      rw [nobody] at owner
      contradiction
  | @gave call o found under here gone =>
    have own := gaveOwn inv (fun again => alone again call o found under here) found under here
    constructor
    · intro i x found' ⟨under',holds,del⟩
      have before : Holder env k h.gave i x := ⟨under',holds,fun at' mem => del at' (List.mem_cons_of_mem _ mem)⟩
      have owner := inv.holder i x found' before
      rcases own with nobody | mine
      · rw [nobody] at owner; contradiction
      · cases Option.some.inj (mine.symm.trans owner)
        cases Option.some.inj (found.symm.trans found')
        exact absurd List.mem_cons_self (del ⟨o,here⟩)
    · simp [gone]
    · intro i mark
      simp [gone] at mark
    · exact inv.settled
    · intro i x r found' under' ok
      have owner := inv.success i x r found' under' ok
      rcases own with nobody | mine
      · rw [nobody] at owner; contradiction
      · cases Option.some.inj (mine.symm.trans owner)
        cases Option.some.inj (found.symm.trans found')
        have after := inv.settled c call r found ok
        rw [here] at after
        contradiction
  | @stored call r data found under here kept =>
    have owner := inv.holder c call found ⟨under,by rw [here]; rfl,fun ⟨o,del⟩ => by
      rw [here] at del
      contradiction⟩
    constructor
    · exact inv.holder
    · constructor
      · intro nobody
        rw [show h.owner = none from nobody] at owner
        contradiction
      · intro gone
        rw [show keys k = none from gone] at kept
        contradiction
    · intro i mark
      cases Option.some.inj (kept.symm.trans mark)
    · exact inv.settled
    · exact inv.success

theorem ownedCall (inv : Owned env k (s,h)) (found : s.calls[c]? = some call)
    (holds : Holder env k h.gave c call' → h.owner = some c)
    (settled : ∀ r, call'.outcome = some (.ok r) → call'.point.after = true)
    (success : ∀ r, Of env k call' → call'.outcome = some (.ok r) → h.owner = some c) :
    Owned env k (s.setCall c call',h) := by
  have moved {i x} (now : ({s with keys := s.keys}.setCall c call').calls[i]? = some x) := movedCall found now
  refine ⟨fun i x now held => ?_,inv.free,inv.mark,fun i x r now ok => ?_,fun i x r now under ok => ?_⟩
  · rcases moved now with ⟨rfl,rfl⟩ | ⟨-,before⟩
    · exact holds held
    · exact inv.holder i x before held
  · rcases moved now with ⟨rfl,rfl⟩ | ⟨-,before⟩
    · exact settled r ok
    · exact inv.settled i x r before ok
  · rcases moved now with ⟨rfl,rfl⟩ | ⟨-,before⟩
    · exact success r under ok
    · exact inv.success i x r before under ok

theorem onceKeys {a : Action ρ} (one : step env s a = some t) :
    (∃ c, (Exchange.once a).runs = some c ∧ effect env s c = some t.keys) ∨
    ((Exchange.once a).runs = none ∧ t.keys = s.keys) := by
  have sent {c : Nat} {reply : Reply} {ran : Store String (Kept δ)}
      (done : effect env s c = some ran) (keys : t.keys = if reply.ran then ran else s.keys) :
      (∃ d, (if reply.ran then some c else none) = some d ∧ effect env s d = some t.keys) ∨
      ((if reply.ran then some c else none) = none ∧ t.keys = s.keys) := by
    by_cases here : reply.ran = true
    · rw [if_pos here] at keys ⊢
      exact .inl ⟨c,rfl,by rw [done,keys]⟩
    · rw [if_neg here] at keys ⊢
      exact .inr ⟨rfl,keys⟩
  cases a <;> simp only [step,bind,Option.bind_eq_some_iff,Option.some.injEq] at one
  case tick | call => subst one; exact .inr ⟨rfl,rfl⟩
  case setNX c reply | get c reply | del c reply | store c reply =>
    obtain ⟨call,found,key,under,last⟩ := one
    split at last <;> try contradiction
    rename_i here
    cases Option.some.inj last
    refine sent (by simp only [effect,bind,found,under,here,Option.bind_some]; rfl) ?_
    first
      | rfl
      | exact (ite_self _).symm
  case finish c o =>
    obtain ⟨call,found,last⟩ := one
    split at last <;> try contradiction
    all_goals
      cases Option.some.inj last
      exact .inr ⟨rfl,rfl⟩
  case ctxEnds c =>
    obtain ⟨call,found,last⟩ := one
    cases last
    exact .inr ⟨rfl,rfl⟩
  case crash c =>
    obtain ⟨call,found,last⟩ := one
    split at last <;> try contradiction
    cases Option.some.inj last
    exact .inr ⟨rfl,rfl⟩

theorem ownedNoted {c : Nat} (inv : Owned env k (s,h)) (within : (s.keys k).all (Entry.live s.clock) = true)
    (alone : Alone env k (s,h) a) (runs : a.runs = some c) (ran : effect env s c = some keys) :
    Owned env k ({s with keys := keys},noted env k s a h) := by
  simp only [noted,runs]
  exact ownedKeys inv (effectRuns within ran) (fun again call o found under here =>
    alone c again ⟨runs,call,o,found,under,here⟩)

theorem ownedMove {a : Action ρ} (inv : Owned env k ({s with keys := keys},noted env k s (.once a) h))
    (before : Owned env k (s,h)) (found : s.calls[c]? = some call) (moves : Moves env s c call a call' keys) :
    Owned env k ({s with keys := keys}.setCall c call',noted env k s (.once a) h) := by
  have of : Of env k call' → Of env k call := fun under => by rwa [Of,← movesRequest moves]
  have unsettled {r} (ok : call.outcome = some (.ok r)) (early : call.point.after = false) : False := by
    rw [before.settled c call r found ok] at early
    contradiction
  refine ownedCall inv found (fun held => ?_) (fun r ok => ?_) (fun r under ok => ?_)
  · obtain ⟨under,holds,del⟩ := held
    cases moves with
    | claims key here _ _ point =>
      obtain ⟨rfl,free⟩ := claimedHolds (point ▸ holds)
      cases Option.some.inj (key.symm.trans (of under))
      have none' : (Redis.get s.keys s.clock k).isSome = false := free
      simp only [noted,Exchange.runs,Reply.ran,if_true,claims,found,key,here,none',Bool.false_eq_true,if_false]
    | runs here =>
      exact inv.holder c call found ⟨of under,by rw [here]; rfl,fun deleting => by
        obtain ⟨o,at'⟩ := deleting
        rw [here] at at'
        contradiction⟩
    | gives _ _ _ _ point | keeps _ _ _ _ point | answers _ _ _ point | crashes _ _ point =>
      rw [point] at holds
      contradiction
    | stays _ _ point =>
      exact inv.holder c call found ⟨of under,point ▸ holds,fun at' => del (point ▸ at')⟩
  · cases moves with
    | claims _ here _ outcome => exact (unsettled (outcome ▸ ok) (by rw [here]; rfl)).elim
    | runs here _ outcome point =>
      cases Option.some.inj (outcome.symm.trans ok)
      rw [point,afterHandler]
      split <;> rfl
    | gives _ _ _ _ point | keeps _ _ _ _ point | answers _ _ _ point | crashes _ _ point => rw [point]; rfl
    | stays _ outcome point => rw [point]; exact before.settled c call r found (outcome ▸ ok)
  · cases moves with
    | claims _ here _ outcome | gives _ here _ outcome =>
      exact (unsettled (outcome ▸ ok) (by rw [here]; rfl)).elim
    | runs here =>
      exact inv.holder c call found ⟨of under,by rw [here]; rfl,fun deleting => by
        obtain ⟨o,at'⟩ := deleting
        rw [here] at at'
        contradiction⟩
    | keeps _ _ _ outcome | stays _ outcome | answers _ _ outcome | crashes _ outcome =>
      exact inv.success c call r found (of under) (outcome ▸ ok)

theorem ownedStep (inv : Owned env k (s,h)) (within : (s.keys k).all (Entry.live s.clock) = true)
    (alone : Alone env k (s,h) a) (one : sentStep env s a = some t) : Owned env k (t,noted env k s a h) := by
  cases a with
  | again c =>
    obtain ⟨keys,ran,rfl⟩ := Option.map_eq_some_iff.mp one
    exact ownedNoted inv within alone rfl ran
  | once a =>
    have keyed : Owned env k ({s with keys := t.keys},noted env k s (.once a) h) := by
      rcases onceKeys one with ⟨c,runs,ran⟩ | ⟨none',same⟩
      · exact ownedNoted inv within alone runs ran
      · simpa only [noted,none',same] using inv
    cases stepDoes one with
    | tick d => exact ⟨keyed.holder,keyed.free,keyed.mark,keyed.settled,keyed.success⟩
    | call r =>
      refine ⟨fun i x now held => ?_,keyed.free,keyed.mark,fun i x r now ok => ?_,fun i x r now under ok => ?_⟩
      all_goals rcases newCall now with before | ⟨idle,fresh⟩
      · exact keyed.holder i x before held
      · have holds := held.2.1
        rw [idle] at holds
        contradiction
      · exact keyed.settled i x r before ok
      · rw [fresh] at ok; contradiction
      · exact keyed.success i x r before under ok
      · rw [fresh] at ok; contradiction
    | move found moves => exact ownedMove keyed inv found moves

theorem ownedInit (clock : Int) : Owned env k (State.init clock,⟨none,[]⟩) := by
  refine ⟨?_,?_,?_,?_,?_⟩ <;> simp [State.init]

theorem runningHolds {gave : List Nat} (under : Of env k x) (running : x.point = .running) :
    Holder env k gave i x :=
  ⟨under,by rw [running]; rfl,fun ⟨_,at'⟩ => by rw [running] at at'; contradiction⟩

theorem ownedOne (inv : Owned env k (s,h)) : AtMostOne env k s := by
  intro i j x y hx hy ofX ofY runX runY
  have one := inv.holder i x hx (runningHolds ofX runX)
  exact Option.some.inj (one.symm.trans (inv.holder j y hy (runningHolds ofY runY)))

theorem ownedNone (inv : Owned env k (s,h)) (done : Succeeded env k s) : NoneRunning env k s := by
  obtain ⟨i,x,r,hx,ofX,ok⟩ := done
  intro j y hy ofY runY
  have owner := inv.success i x r hx ofX ok
  cases Option.some.inj (owner.symm.trans (inv.holder j y hy (runningHolds ofY runY)))
  cases Option.some.inj (hx.symm.trans hy)
  have after := inv.settled i x r hx ok
  rw [runY] at after
  contradiction

theorem ownedDel (inv : Owned env k (s,h)) (alone : Alone env k (s,h) a) : DelsOwn env k s a := by
  rintro c ⟨runs,call,o,found,under,here⟩ j held
  have raw : (s.keys k).map Entry.value = some (.pending j) := by
    obtain ⟨e,raw,-,value⟩ := getExact.mp held
    rw [raw,Option.map_some,value]
  have owner := inv.mark j raw
  rcases gaveOwn inv (fun again => alone c again ⟨runs,call,o,found,under,here⟩) found under here with none' | mine
  · rw [none'] at owner
    contradiction
  · exact Option.some.inj (owner.symm.trans mine)

theorem executedOnce (env : Env ρ δ) (k : String) (clock : Int) (as : List (Exchange ρ)) (s : State ρ δ)
    (within : Along (sentStep env) (fun s _ => (s.keys k).all (Entry.live s.clock) = true) (State.init clock) as)
    (alone : Along (pastStep env k) (Alone env k) (State.init clock,⟨none,[]⟩) as)
    (ok : run (sentStep env) (State.init clock) as = some s) :
    AtMostOne env k s ∧ (Succeeded env k s → NoneRunning env k s) ∧
      Along (sentStep env) (DelsOwn env k) (State.init clock) as := by
  have lasts : Along (pastStep env k) (fun s _ => (s.1.keys k).all (Entry.live s.1.clock) = true)
      (State.init clock,⟨none,[]⟩) as :=
    (alongRecording : Along (recording (sentStep env) (noted env k)) _ (State.init clock,⟨none,[]⟩) as ↔ _).mpr within
  have both := alongAnd lasts alone
  have keep : ∀ {s : State ρ δ × Past} {a t}, Owned env k s →
      (s.1.keys k).all (Entry.live s.1.clock) = true ∧ Alone env k s a → pastStep env k s a = some t →
      Owned env k t := by
    rintro ⟨s,h⟩ a ⟨t,h'⟩ inv ⟨within,alone⟩ one
    obtain ⟨one,rfl⟩ := recordingStep one
    exact ownedStep inv within alone one
  obtain ⟨h,ends⟩ : ∃ h, run (pastStep env k) (State.init clock,⟨none,[]⟩) as = some (s,h) := runRecording ok
  have inv := runKeeps keep (ownedInit clock) both ends
  have dels := alongKeeps (q := fun s a => DelsOwn env k s.1 a) keep
    (fun inv here _ => ownedDel inv here.2) (ownedInit clock) both
  exact ⟨ownedOne inv,ownedNone inv,alongRecording.mp dels⟩

def retried : List (Exchange Nat) :=
  [.once (.call pay),.once (.setNX 0 .ok),.once (.call pay),.once (.setNX 1 .ok),.again 1,.once (.get 1 .ok),
    .once (.finish 0 .error),.again 0,.once (.del 0 .ok),
    .once (.call pay),.once (.setNX 2 .ok),.once (.finish 2 (.ok 5)),.again 2,.once (.store 2 .lost),
    .once (.call pay),.once (.setNX 3 .ok),.once (.get 3 .ok)]

theorem retriedOnce : ∃ s, run (sentStep wallet) (State.init 0) retried = some s ∧
    s.calls.map Call.point = [.returned (.failed .error),
      .returned (.refused 1002 "request with this request_id is in progress"),
      .returned (.own 5),.returned (.replayed 5)] ∧
    AtMostOne wallet payKey s ∧ (Succeeded wallet payKey s → NoneRunning wallet payKey s) ∧
      Along (sentStep wallet) (DelsOwn wallet payKey) (State.init 0) retried := by
  have facts : (run (sentStep wallet) (State.init 0) retried).map (fun s => s.calls.map Call.point) =
      some [.returned (.failed .error),
        .returned (.refused 1002 "request with this request_id is in progress"),
        .returned (.own 5),.returned (.replayed 5)] := by decide
  obtain ⟨s,ok,points⟩ := Option.map_eq_some_iff.mp facts
  exact ⟨s,ok,points,executedOnce wallet payKey 0 retried s (by decide) (by decide) ok⟩

/- The answer to the first call's Del is lost. Before the client sends it again a second
call claims the key; the Del then takes that claim, and a third call's handler runs beside
the second's. -/
def resentDel : List (Exchange Nat) :=
  [.once (.call pay),.once (.setNX 0 .ok),.once (.finish 0 .error),.again 0,
    .once (.call pay),.once (.setNX 1 .ok),.once (.del 0 .ok),.once (.call pay),.once (.setNX 2 .ok)]

theorem resentRunsTwice : ¬ ∀ (env : Env Nat Nat) (k : String) (clock : Int) (as : List (Exchange Nat)) s,
    Along (sentStep env) (fun s _ => (s.keys k).all (Entry.live s.clock) = true) (State.init clock) as →
    run (sentStep env) (State.init clock) as = some s → AtMostOne env k s := by
  intro one
  have facts : (run (sentStep wallet) (State.init 0) resentDel).map (fun s => s.calls.map Call.point) =
      some [.returned (.failed .error),.running,.running] := by decide
  have requests : (run (sentStep wallet) (State.init 0) resentDel).map (fun s => s.calls.map Call.request) =
      some [pay,pay,pay] := by decide
  obtain ⟨s,ok,points⟩ := Option.map_eq_some_iff.mp facts
  rw [ok,Option.map_some,Option.some.injEq] at requests
  match calls : s.calls with
  | [x,y,z] =>
    simp only [calls,List.map_cons,List.map_nil,List.cons.injEq,and_true] at points requests
    have under {x : Call Nat Nat} (same : x.request = pay) : Of wallet payKey x := by rw [Of,same]; decide
    have same := one wallet payKey 0 resentDel s (by decide) ok 1 2 y z (by rw [calls]; rfl) (by rw [calls]; rfl)
      (under requests.2.1) (under requests.2.2) points.2.1 points.2.2
    cases same
  | [] | [_] | [_,_] | _::_::_::_::_ => simp [calls] at points

end DevkitCommon.Kitexx
