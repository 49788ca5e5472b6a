import DevkitCommon.Kitexx.Execution

/-! What a call that has run its handler without a stored success leaves under its key.
The Del goes through the request's own context, and a result that cannot be encoded has
no Del at all. -/
namespace DevkitCommon.Kitexx
open Machine Redis
variable {ρ δ : Type}

def Outcome.failed : Outcome ρ → Bool
  | .ok _ => false
  | _ => true

def Returned (call : Call ρ δ) : Prop := ∃ answer, call.point = .returned answer

section Frees
variable (env : Env ρ δ)

def RunsAgain (s : State ρ δ) (r : Request) : Prop :=
  ∃ u, run (step env) s [.call r,.setNX s.calls.length .ok] = some u ∧
    (u.calls[s.calls.length]?).map Call.point = some .running

def NotPending (s : State ρ δ) (key : String) : Prop :=
  ∀ i, Redis.get s.keys s.clock key ≠ some (.pending i)

def Frees (s : State ρ δ) (r : Request) : Prop :=
  (∀ key, r.key env = some key → NotPending s key) ∧ RunsAgain env s r

def Answers (s : State ρ δ) : Action ρ → Prop
  | .setNX c reply | .get c reply | .del c reply | .store c reply =>
    ∀ call, s.calls[c]? = some call → reply = if call.ctxDone then .failed else .ok
  | _ => True

def Records (r : Request) (outcome : Option (Outcome ρ)) : Point ρ δ → Prop
  | .through => outcome = none
  | .setNX | .get | .running => outcome = none ∧ first env r = (.setNX : Point ρ δ)
  | .del o => outcome = some o ∧ o.failed = true ∧ first env r = (.setNX : Point ρ δ)
  | .store v data => outcome = some (.ok v) ∧ env.marshal r.method v = some data ∧
      first env r = (.setNX : Point ρ δ)
  | .returned (.own v) => outcome = some (.ok v)
  | .returned _ | .crashed => True

def Recorded (s : State ρ δ) : Prop := ∀ call ∈ s.calls, Records env call.request call.outcome call.point

inductive Ends (c : Nat) (r : Request) (key : String) (o : Outcome ρ) (before : Store String (Kept δ))
    (now : Int) : Action ρ → Store String (Kept δ) → Prop where
  | unencodable {v} (ok : o = .ok v) (fails : env.marshal r.method v = none) :
      Ends c r key o before now (.finish c o) before
  | gives {reply} (failed : o.failed = true) :
      Ends c r key o before now (.del c reply) (if reply.ran then del before key else before)
  | keeps {reply v data} (ok : o = .ok v) : Ends c r key o before now (.store c reply)
      (if reply.ran then set before now key (.result data) idempotencyTTL else before)

end Frees

variable {env : Env ρ δ} {key : String} {s t : State ρ δ} {a : Action ρ} {c : Nat} {o : Outcome ρ}
  {x y call call' : Call ρ δ} {keys : Store String (Kept δ)}

theorem firstRecords (r : Request) : Records env r none (first env r) := by
  unfold first
  split
  · exact rfl
  · split
    · trivial
    · split
      · trivial
      · rename_i id has filled there
        exact ⟨rfl,by simp only [first,has,if_neg filled,if_neg there]⟩

theorem movesRecords (before : Records env call.request call.outcome call.point)
    (moves : Moves env s c call a call' keys) : Records env call'.request call'.outcome call'.point := by
  cases moves with
  | claims under here same outcome point =>
    rw [here] at before
    rw [same,outcome,point,claimed]
    split
    · trivial
    · split
      · exact before
      · exact before
  | runs here same outcome point =>
    rw [here] at before
    rw [same,outcome,point]
    rename_i o
    cases o with
    | error => exact ⟨rfl,rfl,before.2⟩
    | biz => exact ⟨rfl,rfl,before.2⟩
    | ok r =>
      simp only [afterHandler]
      split
      · rename_i data encoded
        exact ⟨rfl,encoded,before.2⟩
      · rfl
  | gives under here same outcome point => rw [point]; trivial
  | keeps under here same outcome point =>
    rw [here] at before
    rw [outcome,point]
    exact before.1
  | stays same outcome point => rwa [same,outcome,point]
  | @answers _ answer _ here same outcome point foreign =>
    rw [point]
    cases answer with
    | own r => exact absurd rfl (foreign r)
    | _ => trivial
  | crashes same outcome point => rw [point]; trivial

theorem recordedStep (inv : Recorded env s) (does : Does env s a t) : Recorded env t := by
  intro x mem
  cases does with
  | tick d => exact inv x mem
  | call r =>
    rcases List.mem_append.mp mem with old | new
    · exact inv x old
    · cases List.mem_singleton.mp new
      exact firstRecords r
  | move found moves =>
    rcases List.mem_or_eq_of_mem_set mem with old | rfl
    · exact inv x old
    · exact movesRecords (inv _ (List.mem_of_getElem? found)) moves

theorem recordedReachable {clock : Int} (reach : Reachable (step env) (State.init clock) s) :
    Recorded env s := by
  have none : Recorded env (State.init clock : State ρ δ) := fun _ mem => nomatch mem
  exact reachableKeeps (fun inv one => recordedStep inv (stepDoes one)) none reach

theorem firstRuns {r : Request} {u : State ρ δ} (under : r.key env = some key)
    (passed : first env r = (.setNX : Point ρ δ))
    (ok : run (step env) s [.call r,.setNX s.calls.length .ok] = some u) :
    (u.calls[s.calls.length]?).map Call.point =
      some (claimed .ok (Redis.get s.keys s.clock key).isSome) := by
  simp only [run,step,passed,bind,Option.bind_some,List.getElem?_concat_length,under,Option.some.injEq] at ok
  subst ok
  simp only [State.setCall,List.getElem?_set_self,List.length_append,List.length_singleton,Nat.lt_succ_self,
    Option.map_some]

theorem runsAgainExact {r : Request} (under : r.key env = some key)
    (passed : first env r = (.setNX : Point ρ δ)) :
    RunsAgain env s r ↔ Redis.get s.keys s.clock key = none := by
  constructor
  · rintro ⟨u,ok,running⟩
    rw [firstRuns under passed ok] at running
    have holds : (claimed .ok (Redis.get s.keys s.clock key).isSome : Point ρ δ).holds = true := by
      rw [Option.some.inj running]
      rfl
    simpa using (claimedHolds holds).2
  · intro free
    have again : ∃ u, run (step env) s [.call r,.setNX s.calls.length .ok] = some u := by
      simp only [run,step,passed,bind,Option.bind_some,List.getElem?_concat_length,under,Option.some.injEq,
        exists_eq']
    obtain ⟨u,ok⟩ := again
    refine ⟨u,ok,?_⟩
    rw [firstRuns under passed ok,free]
    rfl

theorem freesExact {r : Request} (under : r.key env = some key)
    (passed : first env r = (.setNX : Point ρ δ)) :
    Frees env s r ↔ Redis.get s.keys s.clock key = none := by
  constructor
  · rintro ⟨-,again⟩
    exact (runsAgainExact under passed).mp again
  · intro free
    refine ⟨fun k same i pending => ?_,(runsAgainExact under passed).mpr free⟩
    cases Option.some.inj (under.symm.trans same)
    rw [free] at pending
    contradiction

theorem endsMoves (here : Records env call.request call.outcome call.point)
    (moves : Moves env s c call a call' keys) (under : call.request.key env = some key) (inside : ¬ Returned call)
    (returned : Returned call') (ran : call'.outcome = some o) :
    Ends env c call.request key o s.keys s.clock a keys ∧ first env call.request = (.setNX : Point ρ δ) := by
  obtain ⟨answer,last⟩ := returned
  cases moves with
  | claims _ point _ outcome =>
    rw [point] at here
    rw [outcome,here.1] at ran
    contradiction
  | runs point same outcome goes =>
    rw [point] at here
    cases Option.some.inj (outcome.symm.trans ran)
    rw [goes] at last
    cases o with
    | error => contradiction
    | biz => contradiction
    | ok v =>
      simp only [afterHandler] at last
      split at last <;> try contradiction
      rename_i fails
      exact ⟨.unencodable rfl fails,here.2⟩
  | gives key' point same outcome =>
    rw [point] at here
    cases Option.some.inj (key'.symm.trans under)
    cases Option.some.inj ((here.1.symm.trans outcome.symm).trans ran)
    exact ⟨.gives here.2.1,here.2.2⟩
  | keeps key' point same outcome =>
    rw [point] at here
    cases Option.some.inj (key'.symm.trans under)
    cases Option.some.inj ((here.1.symm.trans outcome.symm).trans ran)
    exact ⟨.keeps rfl,here.2.2⟩
  | stays _ _ point => exact absurd ⟨answer,point ▸ last⟩ inside
  | answers point same outcome =>
    rw [outcome] at ran
    rcases point with point | point
    · rw [point] at here
      rw [here.1] at ran
      contradiction
    · rw [point] at here
      rw [show call.outcome = none from here] at ran
      contradiction
  | crashes _ _ point =>
    rw [point] at last
    contradiction

theorem endsBy (inv : Recorded env s) (one : step env s a = some t) (before : s.calls[c]? = some x)
    (after : t.calls[c]? = some y) (under : x.request.key env = some key) (inside : ¬ Returned x)
    (returned : Returned y) (ran : y.outcome = some o) :
    Ends env c x.request key o s.keys s.clock a t.keys ∧ t.clock = s.clock ∧
      first env x.request = (.setNX : Point ρ δ) := by
  have moved : x ≠ y := by
    rintro rfl
    exact inside returned
  cases stepDoes one with
  | tick d => exact absurd (Option.some.inj (before.symm.trans after)) moved
  | call r =>
    have short := (List.getElem?_eq_some_iff.mp before).1
    rw [List.getElem?_append_left short] at after
    exact absurd (Option.some.inj (before.symm.trans after)) moved
  | @move _ c' call call' keys found moves =>
    rcases movedCall found after with ⟨rfl,rfl⟩ | ⟨-,still⟩
    · cases Option.some.inj (before.symm.trans found)
      have here := inv x (List.mem_of_getElem? before)
      obtain ⟨ends,passed⟩ := endsMoves here moves under inside returned ran
      exact ⟨ends,rfl,passed⟩
    · exact absurd (Option.some.inj (before.symm.trans still)) moved

theorem failureFrees (env : Env ρ δ) (clock : Int) (s t : State ρ δ) (a : Action ρ) (c : Nat) (x y : Call ρ δ)
    (key : String) (o : Outcome ρ) (reach : Reachable (step env) (State.init clock) s)
    (one : step env s a = some t) (before : s.calls[c]? = some x) (after : t.calls[c]? = some y)
    (under : x.request.key env = some key) (inside : ¬ Returned x) (returned : Returned y)
    (ran : y.outcome = some o) (redis : Answers s a) (notStored : a ≠ .store c .ok) :
    Frees env t x.request ↔
      o.failed = true ∧ x.ctxDone = false ∨ Redis.get s.keys s.clock key = none := by
  obtain ⟨ends,clock,passed⟩ := endsBy (recordedReachable reach) one before after under inside returned ran
  rw [freesExact under passed,clock]
  generalize t.keys = keys at ends
  cases ends with
  | unencodable ok => simp only [ok,Outcome.failed,Bool.false_eq_true,false_and,false_or]
  | gives failed =>
    have reply := redis x before
    subst reply
    cases done : x.ctxDone with
    | true => simp [failed,Reply.ran]
    | false => simp [failed,Reply.ran,getNone delSame]
  | keeps ok =>
    have reply := redis x before
    subst reply
    cases done : x.ctxDone with
    | true => simp [ok,Outcome.failed,Reply.ran]
    | false => simp [done] at notStored

def atDel (done : Bool) : Call Nat Nat := ⟨pay,done,.del .error,some .error⟩

def fails (late : List (Action Nat)) : List (Action Nat) := [.call pay,.setNX 0 .ok,.finish 0 .error] ++ late

theorem errorFrees : ∃ s t, run (step wallet) (State.init 0) (fails []) = some s ∧
    step wallet s (.del 0 .ok) = some t ∧ Frees wallet t pay := by
  have facts : (run (step wallet) (State.init 0) (fails [])).map (fun s =>
      (s.calls[0]?,(step wallet s (.del 0 .ok)).map (fun t => t.calls[0]?))) =
      some (some (atDel false),some (some ⟨pay,false,.returned (.failed .error),some .error⟩)) := by
    decide
  obtain ⟨s,ok,both⟩ := Option.map_eq_some_iff.mp facts
  obtain ⟨before,steps⟩ := Prod.mk.inj both
  obtain ⟨t,one,after⟩ := Option.map_eq_some_iff.mp steps
  have redis : Answers s (.del 0 .ok : Action Nat) := by
    intro call found
    cases Option.some.inj (before.symm.trans found)
    rfl
  have inside : ¬ Returned (atDel false) := fun ⟨_,point⟩ => nomatch point
  exact ⟨s,t,ok,one,(failureFrees wallet 0 s t (.del 0 .ok) 0 (atDel false) _ payKey .error ⟨_,ok⟩ one before
    after rfl inside ⟨_,rfl⟩ rfl redis (by simp)).mpr (.inl ⟨rfl,rfl⟩)⟩

theorem lateKept : ¬ ∀ (env : Env Nat Nat) (clock : Int) (s t : State Nat Nat) (a : Action Nat) (c : Nat)
    (x y : Call Nat Nat) (o : Outcome Nat), Reachable (step env) (State.init clock) s → step env s a = some t →
    s.calls[c]? = some x → t.calls[c]? = some y → ¬ Returned x → Returned y → y.outcome = some o →
    Answers s a → (o.failed = true ∨ ∃ r, o = .ok r ∧ env.marshal x.request.method r = none) →
    Frees env t x.request := by
  intro frees
  have facts : (run (step wallet) (State.init 0) (fails [.ctxEnds 0])).map (fun s =>
      (s.calls[0]?,(step wallet s (.del 0 .failed)).map (fun t =>
        (t.calls[0]?,Redis.get t.keys t.clock payKey)))) =
      some (some (atDel true),some (some ⟨pay,true,.returned (.failed .error),some .error⟩,
        some (.pending 0))) := by decide
  obtain ⟨s,ok,both⟩ := Option.map_eq_some_iff.mp facts
  obtain ⟨before,steps⟩ := Prod.mk.inj both
  obtain ⟨t,one,both⟩ := Option.map_eq_some_iff.mp steps
  obtain ⟨after,pending⟩ := Prod.mk.inj both
  have redis : Answers s (.del 0 .failed : Action Nat) := by
    intro call found
    cases Option.some.inj (before.symm.trans found)
    rfl
  have inside : ¬ Returned (atDel true) := fun ⟨_,point⟩ => nomatch point
  have free := frees wallet 0 s t (.del 0 .failed) 0 (atDel true) _ .error ⟨_,ok⟩ one before after inside
    ⟨_,rfl⟩ rfl redis (.inl rfl)
  exact free.1 payKey rfl 0 pending

end DevkitCommon.Kitexx
