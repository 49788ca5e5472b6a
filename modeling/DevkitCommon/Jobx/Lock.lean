import DevkitCommon.Jobx.Execute

/-! Who holds the lock of a job. A run's DEL does not look at what the key holds: one that
comes after the run's own lock has lapsed takes the lock of the run that came after it. -/
namespace DevkitCommon.Jobx
open Machine Redis

def Point.inProgress : Point → Bool
  | .running | .del _ => true
  | _ => false

def unexpired (s : State) (call : Call) : Bool := call.lease.any (Entry.live s.clock)

structure Locked (s : State) : Prop where
  own : ∀ (c : Nat) (call : Call) (o : Nat), s.calls[c]? = some call → call.removed = some o → o = c
  alone : ∀ (c d : Nat) (call other : Call), s.calls[c]? = some call → s.calls[d]? = some other →
    call.key = other.key → call.point.inProgress = true → other.point.inProgress = true →
    unexpired s call = true → unexpired s other = true → c = d

def inTime (s : State) : Action → Bool
  | .del c reply => (s.calls[c]?).all (fun call =>
      !reply.ran || unexpired s call || (get s.keys s.clock call.key).isNone)
  | _ => true

def InTime (s : State) (a : Action) : Prop := inTime s a = true
instance (s : State) (a : Action) : Decidable (InTime s a) := by unfold InTime; infer_instance

section Does
variable (env : Env) (s : State)

inductive Does : Action → State → Prop where
  | ticks (d : Nat) : Does (.tick d) {s with clock := s.clock + d}
  | enters (service : String) (jobs : List Job) (name : String) :
      Does (.call service jobs name) {s with calls := s.calls ++ [entered env s service jobs name]}
  | wins {c call} {reply : Reply} (found : s.calls[c]? = some call) (here : call.point = .setNX) (ran : reply.ran = true)
      (accepted : refused call.ttl = false) (free : get s.keys s.clock call.key = none) :
      Does (.setNX c reply) ({s with
        keys := Function.update s.keys call.key (some ⟨c,setLapse s.clock call.ttl none⟩)}.setCall c {call with
          point := if reply = Reply.ok then .running else .returned .lock
          start := s.clock
          lease := some ⟨c,setLapse s.clock call.ttl none⟩})
  | fails {c call} {reply : Reply} {r} (found : s.calls[c]? = some call) (here : call.point = .setNX) :
      Does (.setNX c reply) (s.setCall c {call with point := .returned r,start := s.clock,lease := none})
  | goesOn {a c call ctxErr} (found : s.calls[c]? = some call) (here : call.point = .running)
      (other : ∀ e reply, a ≠ .del e reply) :
      Does a (s.setCall c {call with ctxErr := ctxErr})
  | finishes {c call failed} (found : s.calls[c]? = some call) (here : call.point = .running) :
      Does (.finish c failed) (s.setCall c {call with
        point := if env.redis then .del (ended call.ctxErr failed) else .returned (ended call.ctxErr failed)})
  | removes {c call} {reply : Reply} {r} (found : s.calls[c]? = some call) (here : call.point = .del r) (ran : reply.ran = true) :
      Does (.del c reply) ({s with keys := Redis.del s.keys call.key}.setCall c
        {call with point := .returned r,removed := get s.keys s.clock call.key})
  | leaves {c call} {reply : Reply} {r} (found : s.calls[c]? = some call) (here : call.point = .del r) (ran : reply.ran = false) :
      Does (.del c reply) (s.setCall c {call with point := .returned r})
  | crashes {c call} (found : s.calls[c]? = some call) (here : ∀ r, call.point ≠ .returned r) :
      Does (.crash c) (s.setCall c {call with point := .crashed})

end Does

variable {env : Env} {s t : State} {a : Action} {c d : Nat} {call other : Call}

theorem stepDoes (one : step env s a = some t) : Does env s a t := by
  cases a <;> simp only [step,bind,Option.bind_eq_some_iff] at one
  case tick d =>
    cases Option.some.inj one
    exact .ticks d
  case call service jobs name =>
    cases Option.some.inj one
    exact .enters service jobs name
  case setNX c reply =>
    obtain ⟨call,found,last⟩ := one
    split at last <;> try contradiction
    rename_i here
    cases Option.some.inj last
    cases ran : reply.ran with
    | false =>
      have failed : reply ≠ .ok := by
        rintro rfl
        contradiction
      simp only [Bool.false_eq_true,if_false,Bool.false_and,if_pos (Or.inl failed)]
      exact .fails found here
    | true =>
      cases accepted : refused call.ttl with
      | true =>
        have unchanged : setNX s.keys s.clock call.key c call.ttl = s.keys := setNXRefused (.inl accepted)
        simp only [if_true,unchanged,Bool.not_true,Bool.false_and,Bool.and_false,Bool.false_eq_true,if_false,or_true]
        exact .fails found here
      | false =>
        cases free : get s.keys s.clock call.key with
        | some holder =>
          have taken : setNX s.keys s.clock call.key c call.ttl = s.keys := setNXRefused (.inr (by rw [free]; rfl))
          simp only [if_true,taken,Option.isNone_some,Bool.and_false,Bool.false_eq_true,if_false,or_false]
          split
          · exact .fails found here
          · exact .fails found here
        | none =>
          have won := setNXMade (v := c) accepted free
          have wins : Does env s (.setNX c reply) _ := .wins found here ran accepted free
          simp only [if_true,won,Bool.not_false,Option.isNone_none,Bool.and_self,Bool.false_eq_true,or_false,ite_not]
          exact wins
  case cancel c =>
    obtain ⟨call,found,last⟩ := one
    split at last <;> try contradiction
    rename_i here
    cases Option.some.inj last
    exact .goesOn found here.1 (fun _ _ => Action.noConfusion)
  case deadline c =>
    obtain ⟨call,found,last⟩ := one
    split at last <;> try contradiction
    rename_i here
    cases Option.some.inj last
    exact .goesOn found here.1 (fun _ _ => Action.noConfusion)
  case finish c failed =>
    obtain ⟨call,found,last⟩ := one
    split at last <;> try contradiction
    rename_i here
    cases Option.some.inj last
    exact .finishes found here
  case del c reply =>
    obtain ⟨call,found,last⟩ := one
    split at last <;> try contradiction
    rename_i r here
    split at last
    · rename_i ran
      cases Option.some.inj last
      exact .removes found here ran
    · rename_i ran
      cases Option.some.inj last
      exact .leaves found here (Bool.eq_false_iff.mpr ran)
  case crash c =>
    obtain ⟨call,found,last⟩ := one
    split at last <;> try contradiction
    rename_i out _
    cases Option.some.inj last
    exact .crashes found out

theorem unexpiredLease : unexpired s call = true ↔ ∃ e, call.lease = some e ∧ e.live s.clock = true := by
  unfold unexpired
  cases call.lease with
  | none => simp
  | some e => simp

structure Tokens (s : State) : Prop where
  value : ∀ (c : Nat) (call : Call) e, s.calls[c]? = some call → call.lease = some e → e.value = c
  fresh : ∀ (c : Nat) (call : Call), s.calls[c]? = some call → call.point = .setNX → call.lease = none
  written : ∀ k f, s.keys k = some f → ∃ call : Call, s.calls[f.value]? = some call ∧ call.key = k ∧ call.lease = some f

structure Held (s : State) : Prop where
  tokens : Tokens s
  holds : ∀ (c : Nat) (call : Call) e, s.calls[c]? = some call → call.point.inProgress = true → call.lease = some e →
    e.live s.clock = true → s.keys call.key = some e
  own : ∀ (c : Nat) (call : Call) (o : Nat), s.calls[c]? = some call → call.removed = some o → o = c

theorem initTokens (clock : Int) : Tokens (State.init clock) :=
  ⟨fun _ _ _ found => absurd found (by simp [State.init]),fun _ _ found => absurd found (by simp [State.init]),
    fun _ _ found => absurd found.symm (Option.some_ne_none _)⟩

theorem initHeld (clock : Int) : Held (State.init clock) :=
  ⟨initTokens clock,fun _ _ _ found => absurd found (by simp [State.init]),fun _ _ _ found => absurd found (by simp [State.init])⟩

theorem enteredBare {service : String} {jobs : List Job} {name : String} :
    (entered env s service jobs name).lease = none ∧ (entered env s service jobs name).removed = none := by
  unfold entered
  split <;> exact ⟨rfl,rfl⟩

theorem movesTokens {x : Call} (inv : Tokens s) (found : s.calls[c]? = some call) (key : x.key = call.key)
    (lease : x.lease = call.lease) (past : x.point = .setNX → call.point = .setNX) : Tokens (s.setCall c x) := by
  refine ⟨fun d y e there has => ?_,fun d y there here => ?_,fun k f raw => ?_⟩
  · rcases setFound there with ⟨rfl,rfl⟩ | ⟨_,before⟩
    · exact inv.value d call e found (lease ▸ has)
    · exact inv.value d y e before has
  · rcases setFound there with ⟨rfl,rfl⟩ | ⟨_,before⟩
    · exact lease.trans (inv.fresh d call found (past here))
    · exact inv.fresh d y before here
  · obtain ⟨y,there,same,has⟩ := inv.written k f raw
    rcases setStays (i := c) (a := x) there with ⟨rfl,after⟩ | ⟨_,after⟩
    · cases Option.some.inj (there.symm.trans found)
      exact ⟨x,after,key.trans same,lease.trans has⟩
    · exact ⟨y,after,same,has⟩

theorem dropsTokens (inv : Tokens s) (k : String) : Tokens {s with keys := Redis.del s.keys k} :=
  ⟨inv.value,inv.fresh,fun _ f raw => inv.written _ f (delKeeps raw).2⟩

theorem doesTokens (inv : Tokens s) (does : Does env s a t) : Tokens t := by
  cases does with
  | ticks d => exact ⟨inv.value,inv.fresh,inv.written⟩
  | enters service jobs name =>
    refine ⟨fun d y e there has => ?_,fun d y there here => ?_,fun k f raw => ?_⟩
    · rcases concatFrom there with before | ⟨_,rfl⟩
      · exact inv.value d y e before has
      · rw [enteredBare.1] at has
        exact absurd has.symm (Option.some_ne_none _)
    · rcases concatFrom there with before | ⟨_,rfl⟩
      · exact inv.fresh d y before here
      · exact enteredBare.1
    · obtain ⟨y,there,same,has⟩ := inv.written k f raw
      exact ⟨y,concatStays there,same,has⟩
  | @wins c call reply found here ran accepted free =>
    refine ⟨fun d y e there has => ?_,fun d y there new => ?_,fun k f raw => ?_⟩
    · rcases setFound there with ⟨rfl,rfl⟩ | ⟨_,before⟩
      · cases Option.some.inj has
        rfl
      · exact inv.value d y e before has
    · rcases setFound there with ⟨rfl,rfl⟩ | ⟨_,before⟩
      · dsimp only at new
        split at new <;> contradiction
      · exact inv.fresh d y before new
    · by_cases same : k = call.key
      · subst same
        simp only [State.setCall,Function.update_self,Option.some.injEq] at raw
        subst raw
        exact ⟨_,List.getElem?_set_self (List.getElem?_eq_some_iff.mp found).1,rfl,rfl⟩
      · have before : s.keys k = some f := (Function.update_of_ne same ..).symm.trans raw
        obtain ⟨y,there,named,has⟩ := inv.written k f before
        rcases setStays (i := c) (a := {call with
            point := if reply = Reply.ok then .running else .returned .lock
            start := s.clock
            lease := some ⟨c,setLapse s.clock call.ttl none⟩}) there with ⟨own,_⟩ | ⟨_,after⟩
        · -- its own key is the other one
          rw [own] at there
          cases Option.some.inj (there.symm.trans found)
          exact absurd named.symm same
        · exact ⟨y,after,named,has⟩
  | fails found here =>
    have bare := inv.fresh _ _ found here
    exact movesTokens inv found rfl bare.symm (fun at' => absurd at' (by simp))
  | goesOn found _ _ => exact movesTokens inv found rfl rfl id
  | finishes found here =>
    refine movesTokens inv found rfl rfl (fun at' => ?_)
    dsimp only at at'
    split at at' <;> contradiction
  | removes found here ran => exact movesTokens (dropsTokens inv _) found rfl rfl (fun at' => absurd at' (by simp))
  | leaves found here ran => exact movesTokens inv found rfl rfl (fun at' => absurd at' (by simp))
  | crashes found _ => exact movesTokens inv found rfl rfl (fun at' => absurd at' (by simp))

theorem movesHeld {x : Call} (inv : Held s) (tokens : Tokens (s.setCall c x)) (found : s.calls[c]? = some call)
    (key : x.key = call.key) (removed : x.removed = call.removed)
    (still : x.point.inProgress = true → x.lease = none ∨ x.lease = call.lease ∧ call.point.inProgress = true) :
    Held (s.setCall c x) := by
  refine ⟨tokens,fun d y e there active has live => ?_,fun d y o there took => ?_⟩
  · rcases setFound there with ⟨rfl,rfl⟩ | ⟨_,before⟩
    · rcases still active with none' | ⟨lease,was⟩
      · exact absurd (has.symm.trans none') (Option.some_ne_none _)
      · have raw := inv.holds d call e found was (lease ▸ has) live
        exact (congrArg s.keys key).trans raw
    · exact inv.holds d y e before active has live
  · rcases setFound there with ⟨rfl,rfl⟩ | ⟨_,before⟩
    · exact inv.own d call o found (removed ▸ took)
    · exact inv.own d y o before took

theorem doesHeld (inv : Held s) (timely : InTime s a) (does : Does env s a t) : Held t := by
  have tokens := doesTokens inv.tokens does
  cases does with
  | ticks d =>
    refine ⟨tokens,fun d y e there active has live => ?_,inv.own⟩
    exact inv.holds d y e there active has (liveBefore live (Int.le_add_of_nonneg_right (Int.natCast_nonneg _)))
  | enters service jobs name =>
    refine ⟨tokens,fun d y e there active has live => ?_,fun d y o there took => ?_⟩
    · rcases concatFrom there with before | ⟨_,rfl⟩
      · exact inv.holds d y e before active has live
      · rw [enteredBare.1] at has
        exact absurd has.symm (Option.some_ne_none _)
    · rcases concatFrom there with before | ⟨_,rfl⟩
      · exact inv.own d y o before took
      · rw [enteredBare.2] at took
        exact absurd took.symm (Option.some_ne_none _)
  | @wins c call reply found here ran accepted free =>
    refine ⟨tokens,fun d y e there active has live => ?_,fun d y o there took => ?_⟩
    · rcases setFound there with ⟨rfl,rfl⟩ | ⟨_,before⟩
      · cases Option.some.inj has
        exact Function.update_self ..
      · have raw := inv.holds d y e before active has live
        by_cases same : y.key = call.key
        · -- a held key would not have been free
          rw [← same] at free
          have taken : (get s.keys s.clock y.key).isSome = e.live s.clock := getLive raw
          rw [free] at taken
          exact absurd (taken.trans live) Bool.false_ne_true
        · exact (Function.update_of_ne same ..).trans raw
    · rcases setFound there with ⟨rfl,rfl⟩ | ⟨_,before⟩
      · exact inv.own d call o found took
      · exact inv.own d y o before took
  | fails found here => exact movesHeld inv tokens found rfl rfl (fun active => absurd active (by simp [Point.inProgress]))
  | goesOn found _ _ => exact movesHeld inv tokens found rfl rfl (fun active => .inr ⟨rfl,active⟩)
  | finishes found here => exact movesHeld inv tokens found rfl rfl (fun _ => .inr ⟨rfl,by rw [here]; rfl⟩)
  | @removes c call reply r found here ran =>
    have active : call.point.inProgress = true := by
      rw [here]
      rfl
    -- the key holds this run's own lock or nothing that is live
    have mine : ∀ e, s.keys call.key = some e → e.live s.clock = true → e.value = c := by
      intro e raw live
      simp only [InTime,inTime,found,Option.all_some,ran,Bool.not_true,Bool.false_or,Bool.or_eq_true] at timely
      rcases timely with lasts | none'
      · obtain ⟨f,lease,alive⟩ := unexpiredLease.mp lasts
        have held := inv.holds c call f found active lease alive
        cases Option.some.inj (raw.symm.trans held)
        exact inv.tokens.value c call e found lease
      · have taken : (get s.keys s.clock call.key).isSome = e.live s.clock := getLive raw
        rw [Option.isNone_iff_eq_none.mp none'] at taken
        exact absurd (taken.trans live) Bool.false_ne_true
    refine ⟨tokens,fun d y e there still has live => ?_,fun d y o there took => ?_⟩
    · rcases setFound there with ⟨rfl,rfl⟩ | ⟨differs,before⟩
      · exact absurd still (by simp [Point.inProgress])
      · have raw := inv.holds d y e before still has live
        by_cases same : y.key = call.key
        · rw [same] at raw
          exact absurd ((inv.tokens.value d y e before has).symm.trans (mine e raw live)) differs
        · exact (delOther same).trans raw
    · rcases setFound there with ⟨rfl,rfl⟩ | ⟨_,before⟩
      · obtain ⟨e,raw,live,rfl⟩ := getExact.mp took
        exact mine e raw live
      · exact inv.own d y o before took
  | leaves found here ran => exact movesHeld inv tokens found rfl rfl (fun active => absurd active (by simp [Point.inProgress]))
  | crashes found _ => exact movesHeld inv tokens found rfl rfl (fun active => absurd active (by simp [Point.inProgress]))

theorem heldLocked (inv : Held s) : Locked s := by
  refine ⟨inv.own,fun c d call other here there same active busy mine theirs => ?_⟩
  obtain ⟨e,hasE,liveE⟩ := unexpiredLease.mp mine
  obtain ⟨f,hasF,liveF⟩ := unexpiredLease.mp theirs
  have rawE := inv.holds c call e here active hasE liveE
  have rawF := inv.holds d other f there busy hasF liveF
  rw [same] at rawE
  cases Option.some.inj (rawE.symm.trans rawF)
  exact (inv.tokens.value c call e here hasE).symm.trans (inv.tokens.value d other e there hasF)

theorem runTokens {as : List Action} (start : Tokens s) (ok : run (step env) s as = some t) : Tokens t :=
  runKeeps (fun inv _ one => doesTokens inv (stepDoes one)) start (alongTrue s as) ok

theorem runHeld {as : List Action} (start : Held s) (timely : Along (step env) InTime s as)
    (ok : run (step env) s as = some t) : Held t :=
  runKeeps (fun inv here one => doesHeld inv here (stepDoes one)) start timely ok

theorem lateRemoves (inv : Tokens s) (late : ¬ InTime s a) (does : Does env s a t) :
    ∃ (c : Nat) (call : Call) (o : Nat), t.calls[c]? = some call ∧ call.removed = some o ∧ o ≠ c ∧
      ∃ r, call.point = .returned r := by
  cases does with
  | goesOn found _ other =>
    refine absurd ?_ late
    cases a <;> try rfl
    exact absurd rfl (other _ _)
  | @removes c call reply r found here ran =>
    simp only [InTime,inTime,found,Option.all_some,ran,Bool.not_true,Bool.false_or,Bool.or_eq_true,not_or] at late
    obtain ⟨lapsed,taken⟩ := late
    cases holder : get s.keys s.clock call.key with
    | none =>
      rw [holder] at taken
      exact absurd rfl taken
    | some o =>
      refine ⟨c,_,o,List.getElem?_set_self (List.getElem?_eq_some_iff.mp found).1,rfl,?_,r,rfl⟩
      rintro rfl
      obtain ⟨e,raw,live,same⟩ := getExact.mp holder
      obtain ⟨y,there,_,lease⟩ := inv.written _ e raw
      rw [same] at there
      cases Option.some.inj (there.symm.trans found)
      exact lapsed (unexpiredLease.mpr ⟨e,lease,live⟩)
  | leaves found here ran => exact absurd (by simp [InTime,inTime,found,ran]) late
  | _ => exact absurd rfl late

theorem returnedStays {r : Result} (found : s.calls[c]? = some call) (done : call.point = .returned r)
    (one : step env s a = some t) : t.calls[c]? = some call := by
  -- the call that moves has not returned
  have another {e : Nat} {y x : Call} (there : s.calls[e]? = some y) (out : ∀ r, y.point ≠ .returned r) :
      (s.calls.set e x)[c]? = some call := by
    rcases setStays (i := e) (a := x) found with ⟨rfl,_⟩ | ⟨_,after⟩
    · cases Option.some.inj (found.symm.trans there)
      exact absurd done (out r)
    · exact after
  have points {y : Call} {p : Point} (here : y.point = p) (out : ∀ r, p ≠ .returned r) : ∀ r, y.point ≠ .returned r :=
    here ▸ out
  cases stepDoes one with
  | ticks d => exact found
  | enters => exact concatStays found
  | wins there here => exact another there (points here (fun _ => Point.noConfusion))
  | fails there here => exact another there (points here (fun _ => Point.noConfusion))
  | goesOn there here => exact another there (points here (fun _ => Point.noConfusion))
  | finishes there here => exact another there (points here (fun _ => Point.noConfusion))
  | removes there here => exact another there (points here (fun _ => Point.noConfusion))
  | leaves there here => exact another there (points here (fun _ => Point.noConfusion))
  | crashes there out => exact another there out

theorem runStays {r : Result} {as : List Action} (found : s.calls[c]? = some call) (done : call.point = .returned r)
    (ok : run (step env) s as = some t) : t.calls[c]? = some call :=
  runKeeps (fun here _ one => returnedStays here done one) found (alongTrue s as) ok

theorem keepsLock {clock : Int} {as : List Action} (ok : run (step env) (State.init clock) as = some t) :
    Along (step env) InTime (State.init clock) as ↔ Locked t := by
  constructor
  · intro timely
    exact heldLocked (runHeld (initHeld clock) timely ok)
  · intro locked
    by_contra breaks
    obtain ⟨u,a,v,back,late,one,more,front,_,before⟩ := alongBreaks breaks ok
    have inv := runTokens (initTokens clock) before
    obtain ⟨c,call,o,there,took,foreign,r,done⟩ := lateRemoves inv late (stepDoes one)
    exact foreign (locked.own c call o (runStays there done more) took)

def report : List Job := [⟨"report","0 3 * * *",0,"",true⟩]
def deployed : Env := ⟨true,fun _ => none⟩
def enter : Action := .call "ser-user" report "report"

def late : List Action := [enter,.setNX 0 .ok,.tick 600000,.deadline 0,.tick 60000,enter,.setNX 1 .ok,.finish 0 true,
  .del 0 .ok,enter,.setNX 2 .ok]

theorem lateOverlaps : ¬ ∀ (env : Env) (clock : Int) as t, run (step env) (State.init clock) as = some t → Locked t := by
  intro keeps
  have facts : (run (step deployed) (State.init 0) late).map (fun s =>
      s.calls.map (fun call => (call.key,call.point.inProgress,unexpired s call))) =
        some [("job:ser-user:report",false,false),("job:ser-user:report",true,true),("job:ser-user:report",true,true)] := by
    decide
  obtain ⟨t,ok,here⟩ := Option.map_eq_some_iff.mp facts
  have place (c : Nat) : (t.calls[c]?).map (fun call => (call.key,call.point.inProgress,unexpired t call)) =
      [("job:ser-user:report",false,false),("job:ser-user:report",true,true),("job:ser-user:report",true,true)][c]? := by
    rw [← here,List.getElem?_map]
  obtain ⟨second,found,same⟩ := Option.map_eq_some_iff.mp (place 1)
  obtain ⟨third,there,also⟩ := Option.map_eq_some_iff.mp (place 2)
  simp only [Prod.mk.injEq] at same also
  have alone := (keeps deployed 0 late t ok).alone 1 2 second third found there (same.1.trans also.1.symm)
    same.2.1 also.2.1 same.2.2 also.2.2
  contradiction

def timely : List Action := [enter,.setNX 0 .ok,.tick 540000,.finish 0 false,.del 0 .ok,enter,.setNX 1 .ok]

theorem timelyKept : ∃ t, run (step deployed) (State.init 0) timely = some t ∧ Locked t := by
  have some' : (run (step deployed) (State.init 0) timely).isSome = true := by decide
  obtain ⟨t,ok⟩ := Option.isSome_iff_exists.mp some'
  have along : Along (step deployed) InTime (State.init 0) timely := by decide
  exact ⟨t,ok,(keepsLock ok).mp along⟩

end DevkitCommon.Jobx
