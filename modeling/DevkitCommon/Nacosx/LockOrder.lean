import DevkitCommon.Nacosx.Steps

/-! The order of the two locks. A push holds w.mu and asks for the v.mu of each subscriber
it tells; Watch holds its v.mu from the start and asks for w.mu twice, in follow and, when
its first version is refused, in unfollow. In between it is a subscriber. -/
namespace DevkitCommon.Nacosx
open Machine
variable {T : Type}

def refuses (env : Env T) (content : Content) : Bool :=
  isBlank content || match decode env content with
    | .err _ => true
    | _ => false

def Call.leaving (env : Env T) (call : Call T) : Bool :=
  call.watch && match call.point with
    | .load first => refuses env first
    | .unfollow => true
    | _ => false

def Stuck (s : State T) : Prop :=
  ∃ (c : Nat) (call : Call T) (sent : Nat) (pushed content : Content) (version : Nat) (rest : List Nat),
    s.calls[c]? = some call ∧ call.watch = true ∧ call.value.mu = some .watch ∧
      (call.point = .follow ∨ call.point = .unfollow) ∧
      s.w.mu = some ⟨.push sent pushed,.tell content version (c::rest) .waits⟩

section Calm
variable (env : Env T) (s : State T)

def calm : Action → Bool
  | .fetch ok => match s.w.mu with
    | some ⟨.push _ pushed,.fetch⟩ =>
      sum (if ok then s.server else pushed) == s.w.sum ||
        s.w.subs.all (fun c => (s.calls[c]?).all (fun call => !call.leaving env))
    | _ => true
  | _ => true

def Calm (a : Action) : Prop := calm env s a = true
instance (a : Action) : Decidable (Calm env s a) := by unfold Calm; infer_instance

structure Ordered : Prop where
  followed : ∀ c ∈ s.w.subs, ∃ call, s.calls[c]? = some call ∧ call.point ≠ .follow ∧ call.point ≠ .inside
  told : ∀ caller content version rest turn, s.w.mu = some ⟨caller,.tell content version rest turn⟩ →
    ∀ c ∈ rest, c ∈ s.w.subs
  stays : ∀ sent pushed content version rest turn,
    s.w.mu = some ⟨.push sent pushed,.tell content version rest turn⟩ →
      ∀ c ∈ rest, ∀ call, s.calls[c]? = some call → call.leaving env = false

structure Went (y x : Call T) : Prop where
  watch : x.watch = y.watch
  on : y.point ≠ .follow → y.point ≠ .inside → x.point ≠ .follow ∧ x.point ≠ .inside
  leaving : y.point ≠ .inside → x.leaving env = true → y.leaving env = true

end Calm

variable {env : Env T} {s t : State T} {a : Action} {c d : Nat} {call x y : Call T}

theorem refusesLoad {v : Value T} {content : Content}
    (bad : load env v content = .missing ∨ ∃ why, load env v content = .err why) : refuses env content = true := by
  unfold refuses
  unfold load at bad
  cases blank : isBlank content with
  | true => rfl
  | false =>
    rw [blank] at bad
    simp only [Bool.false_eq_true,if_false] at bad
    cases got : decode env content with
    | err why => rfl
    | panics =>
      rw [got] at bad
      rcases bad with bad | ⟨_,bad⟩ <;> simp only [reduceCtorEq] at bad
    | ok cur unknown =>
      rw [got] at bad
      rcases bad with bad | ⟨_,bad⟩ <;> simp only [reduceCtorEq] at bad

theorem wentAlong (watch : x.watch = y.watch) (point : x.point = y.point) : Went env y x :=
  ⟨watch,fun follow inside => point ▸ ⟨follow,inside⟩,
    fun _ leaving => by rwa [Call.leaving,watch,point] at leaving⟩

theorem wentOut (watch : x.watch = y.watch) (follow : x.point ≠ .follow) (inside : x.point ≠ .inside)
    (stays : x.leaving env = true → y.leaving env = true) : Went env y x :=
  ⟨watch,fun _ _ => ⟨follow,inside⟩,fun _ => stays⟩

theorem entersWent (here : call.point = .follow) : Went env call {call with point := .inside} :=
  ⟨rfl,fun follow => absurd here follow,fun _ leaving => by simp [Call.leaving] at leaving⟩

theorem failsWent : Went env call call.fails :=
  wentOut rfl (by simp [Call.fails]) (by simp [Call.fails]) (fun h => by simp [Call.fails,Call.leaving] at h)

theorem callsWent (does : Does env s a t) (found : t.calls[d]? = some x) :
    s.calls[d]? = none ∧ x.point = .follow ∨ ∃ y, s.calls[d]? = some y ∧
      (Went env y x ∨ t.w.mu = none ∧ x.point ≠ .follow ∧ x.point ≠ .inside) := by
  have same (here : s.calls[d]? = some x) : ∃ y, s.calls[d]? = some y ∧
      (Went env y x ∨ t.w.mu = none ∧ x.point ≠ .follow ∧ x.point ≠ .inside) := ⟨x,here,.inl (wentAlong rfl rfl)⟩
  have one {e : Nat} {y z : Call T} (there : s.calls[e]? = some y) (after : (s.calls.set e z)[d]? = some x)
      (went : Went env y z ∨ t.w.mu = none ∧ z.point ≠ .follow ∧ z.point ≠ .inside) : ∃ y, s.calls[d]? = some y ∧
      (Went env y x ∨ t.w.mu = none ∧ x.point ≠ .follow ∧ x.point ≠ .inside) := by
    rcases setFound after with ⟨rfl,rfl⟩ | ⟨_,before⟩
    · exact ⟨y,there,went⟩
    · exact ⟨x,before,.inl (wentAlong rfl rfl)⟩
  cases does with
  | write | push | done | leaves => exact .inr (same found)
  | takePush => exact .inr (same found)
  | pushed | asked | asks => exact .inr (same found)
  | call watch =>
    rcases concatFrom found with before | ⟨long,rfl⟩
    · exact .inr (same before)
    · exact .inl ⟨List.getElem?_eq_none_iff.mpr (Nat.le_of_eq long.symm),rfl⟩
  | takeFollow there free here => exact .inr (one there found (.inl (entersWent here)))
  | fails held there => exact .inr (one there found (.inl failsWent))
  | listens held there => exact .inr (one there found (.inr ⟨rfl,joinsPoint⟩))
  | tells ended held there => exact .inr (one there found (.inl (wentAlong rfl rfl)))
  | locks held there => exact .inr (one there found (.inl (wentAlong rfl rfl)))
  | changes held there => exact .inr (one there found (.inl (wentAlong rfl rfl)))
  | joins held there => exact .inr (one there found (.inr ⟨rfl,joinsPoint⟩))
  | loads there =>
    exact .inr (one there found (.inl (wentOut rfl (by simp) (by simp) (fun h => by simp [Call.leaving] at h))))
  | panics there =>
    exact .inr (one there found (.inl (wentOut rfl (by simp) (by simp) (fun h => by simp [Call.leaving] at h))))
  | refuses there here bad =>
    refine .inr (one there found (.inl (wentOut rfl (by simp) (by simp) (fun h => ?_))))
    simp only [Call.leaving,Bool.and_true] at h
    simp [Call.leaving,h,here,refusesLoad bad]
  | unfollows there => exact .inr (one there found (.inl failsWent))
  | hooks there => exact .inr (one there found (.inl (wentAlong rfl rfl)))

theorem toldWent (does : Does env s a t) {caller content version rest turn}
    (held : t.w.mu = some ⟨caller,.tell content version rest turn⟩) : t.w.subs = s.w.subs ∧
      ((∃ rest' turn', s.w.mu = some ⟨caller,.tell content version rest' turn'⟩ ∧ ∀ c ∈ rest, c ∈ rest') ∨
        ∃ ok, a = .fetch ok ∧ s.w.mu = some ⟨caller,.fetch⟩ ∧ t.calls = s.calls ∧ (rest ≠ [] → rest = s.w.subs) ∧
          ∀ sent pushed, caller = .push sent pushed → rest ≠ [] →
            sum (if ok then s.server else pushed) ≠ s.w.sum) := by
  cases does with
  | write | push | call | loads | panics | refuses | hooks => exact ⟨rfl,.inl ⟨rest,turn,held,fun _ mem => mem⟩⟩
  | takePush | takeFollow | asks | fails | listens | done | joins =>
    simp only [State.hold,State.setCall,Option.some.injEq,Hold.mk.injEq,reduceCtorEq,and_false] at held
  | unfollows there free => exact absurd (free.symm.trans held) (Option.some_ne_none _).symm
  | leaves there free => exact absurd (free.symm.trans held) (Option.some_ne_none _).symm
  | pushed ok before =>
    refine ⟨appliedSubs,.inr ⟨ok,rfl,?_⟩⟩
    rcases appliedMu _ _ _ with ⟨_,mu⟩ | ⟨changed,mu⟩ <;> cases Option.some.inj (mu.symm.trans held)
    · exact ⟨before,rfl,fun some => absurd rfl some,fun _ _ _ some => absurd rfl some⟩
    · refine ⟨before,rfl,fun _ => rfl,fun sent pushed same _ => ?_⟩
      cases same
      exact changed
  | asked before there listening =>
    refine ⟨appliedSubs,.inr ⟨true,rfl,?_⟩⟩
    rcases appliedMu _ _ _ with ⟨_,mu⟩ | ⟨_,mu⟩ <;> cases Option.some.inj (mu.symm.trans held)
    · exact ⟨before,rfl,fun some => absurd rfl some,fun _ _ _ some => absurd rfl some⟩
    · exact ⟨before,rfl,fun _ => rfl,fun _ _ same _ => Caller.noConfusion same⟩
  | @tells _ _ call _ _ _ stage ended before there after =>
    cases held
    cases watch : call.watch with
    | true =>
      rw [watch,if_pos rfl] at after
      cases after
      exact ⟨rfl,.inl ⟨_,_,before,fun _ mem => mem⟩⟩
    | false =>
      rw [watch,if_neg Bool.false_ne_true] at after
      cases after
      exact ⟨rfl,.inl ⟨_,_,before,fun _ mem => List.mem_cons_of_mem _ mem⟩⟩
  | locks before => cases held; exact ⟨rfl,.inl ⟨_,_,before,fun _ mem => mem⟩⟩
  | changes before => cases held; exact ⟨rfl,.inl ⟨_,_,before,fun _ mem => List.mem_cons_of_mem _ mem⟩⟩

theorem orderedStep (inv : Ordered env s) (quiet : Calm env s a) (does : Does env s a t) : Ordered env t where
  followed c mem := by
    rcases subsWent does mem with old | ⟨x,found,out⟩
    · obtain ⟨y,before,follow,inside⟩ := inv.followed c old
      obtain ⟨x,after⟩ := callsStay does before
      rcases callsWent does after with ⟨none,_⟩ | ⟨z,there,went⟩
      · rw [before] at none
        contradiction
      · cases Option.some.inj (before.symm.trans there)
        rcases went with went | ⟨_,out⟩
        · exact ⟨x,after,went.on follow inside⟩
        · exact ⟨x,after,out⟩
    · exact ⟨x,found,out⟩
  told caller content version rest turn held c mem := by
    obtain ⟨subs,before | ⟨ok,_,_,_,all,_⟩⟩ := toldWent does held
    · obtain ⟨rest',turn',before,more⟩ := before
      exact subs ▸ inv.told _ _ _ _ _ before c (more c mem)
    · exact subs ▸ all (List.ne_nil_of_mem mem) ▸ mem
  stays sent pushed content version rest turn held c mem x after := by
    obtain ⟨subs,before | ⟨ok,rfl,before,same,all,new⟩⟩ := toldWent does held
    · obtain ⟨rest',turn',before,more⟩ := before
      obtain ⟨y,there,follow,inside⟩ := inv.followed c (inv.told _ _ _ _ _ before c (more c mem))
      have stayed := inv.stays _ _ _ _ _ _ before c (more c mem) y there
      rcases callsWent does after with ⟨none,_⟩ | ⟨z,here,went⟩
      · rw [there] at none
        contradiction
      · cases Option.some.inj (there.symm.trans here)
        rcases went with went | ⟨free,_⟩
        · exact eq_false_of_ne_true (fun leaving => by rw [went.leaving inside leaving] at stayed; contradiction)
        · rw [held] at free
          contradiction
    · have some := List.ne_nil_of_mem mem
      have changed := new sent pushed rfl some
      simp only [Calm,calm,before,Bool.or_eq_true,beq_iff_eq,changed,false_or] at quiet
      have out := List.all_eq_true.mp quiet c (all some ▸ mem)
      rw [same] at after
      rw [after] at out
      simpa using out

theorem orderedStart (start : Content) : Ordered env (State.init start) :=
  ⟨fun _ mem => absurd mem List.not_mem_nil,fun _ _ _ _ _ held => absurd held.symm (Option.some_ne_none _),
    fun _ _ _ _ _ _ held => absurd held.symm (Option.some_ne_none _)⟩

theorem neverStuck (env : Env T) (start : Content) (as : List Action) (s : State T)
    (quiet : Along (step env) (Calm env) (State.init start) as)
    (ok : run (step env) (State.init start) as = some s) : ¬ Stuck s := by
  have inv := runKeeps (fun inv quiet one => orderedStep inv quiet (stepDoes one)) (orderedStart start) quiet ok
  rintro ⟨c,call,sent,pushed,content,version,rest,found,watch,_,waits,held⟩
  rcases waits with follow | unfollow
  · obtain ⟨x,there,out,_⟩ := inv.followed c (inv.told _ _ _ _ _ held c List.mem_cons_self)
    cases Option.some.inj (found.symm.trans there)
    exact out follow
  · have stays := inv.stays _ _ _ _ _ _ held c List.mem_cons_self call found
    simp [Call.leaving,watch,unfollow] at stays

def watched : List Action :=
  [.watch,.takeFollow 0,.fetch true,.listen true,.write [98],.push [98],.takePush 0,.fetch true,.tell .returns,.load 0,
    .lock,.change [],.done]

set_option maxRecDepth 8000 in
theorem watchedFree : ∃ s, run (step raw) (State.init [97]) watched = some s ∧ s.w.mu = none ∧ ¬ Stuck s := by
  have facts : (run (step raw) (State.init [97]) watched).map (fun s => s.w.mu) = some none := by decide
  obtain ⟨s,ok,free⟩ := Option.map_eq_some_iff.mp facts
  exact ⟨s,ok,free,neverStuck raw [97] watched s (by decide) ok⟩

def created : List Action :=
  [.watch,.takeFollow 0,.fetch true,.listen true,.write [97],.push [97],.takePush 0,.fetch true,.tell .returns,.load 0]

set_option maxRecDepth 8000 in
theorem createdStuck : ¬ ∀ (T : Type) (env : Env T) start as s,
    run (step env) (State.init start) as = some s → ¬ Stuck s := by
  intro never
  have facts : (run (step raw) (State.init []) created).map
      (fun s => (s.w.mu,s.calls.map (fun c => (c.watch,c.point,c.value.mu)))) =
      some (some ⟨.push 1 [97],.tell [97] 1 [0] .waits⟩,[(true,.unfollow,some .watch)]) := by decide
  obtain ⟨s,ok,here⟩ := Option.map_eq_some_iff.mp facts
  obtain ⟨held,calls⟩ := Prod.mk.inj here
  have first := congrArg (fun l => l[0]?) calls
  simp only [List.getElem?_map] at first
  obtain ⟨call,found,same⟩ := Option.map_eq_some_iff.mp first
  obtain ⟨watch,rest⟩ := Prod.mk.inj same
  obtain ⟨point,mu⟩ := Prod.mk.inj rest
  exact never _ raw [] created s ok ⟨0,call,_,_,_,_,_,found,watch,mu,.inr point,held⟩

end DevkitCommon.Nacosx
