import DevkitCommon.Authx.Acceptance
import DevkitCommon.Authx.Revocation
import DevkitCommon.Authx.Rotation

/-! single_session: a Login reads the principal's session, ends it and starts its own, in
commands of their own. The key names the one live session as long as every read answers
and no two Logins of a principal are between the read and the start at once. -/
namespace DevkitCommon.Authx
open Machine Redis

def Point.window : Point → Option Principal
  | .endPrevious who _ _ | .dropPrevious who _ _ | .startSession who _ => some who
  | _ => none

def Point.previous : Point → Option Sid
  | .endPrevious _ _ old => some old
  | _ => none

def inTurn (s : State) : Action → Bool
  | .command c reply => (s.calls[c]?).all (fun call => match call.point with
    | .getSession who _ => reply == .ok || !(get s.keys.session s.clock who).any s.alive
    | .startSession who _ => !reply.ran || (s.calls.eraseIdx c).all (fun other => other.point.window != some who)
    | _ => true)
  | _ => true

def InTurn (s : State) (a : Action) : Prop := inTurn s a = true
instance (s : State) (a : Action) : Decidable (InTurn s a) := by unfold InTurn; infer_instance

def Action.logsIn : Action → Bool
  | .call (.login _) => true
  | .call _ => false
  | _ => true

def OneSession (s : State) : Prop :=
  ∀ x ∈ s.started, ∀ y ∈ s.started, x.who = y.who →
    (s.alive x.sid = true → s.alive y.sid = true → x = y) ∧
    ∀ schemes verifier now reads t u, reads.alive = s → t.claims.sid = x.sid → u.claims.sid = y.sid →
      Accepted (verify schemes verifier now reads t) → Accepted (verify schemes verifier now reads u) → x = y

structure Single (cfg : Config) (s : State) : Prop where
  sound : Sound s
  logins : ∀ call ∈ s.calls, ∃ who, call.op = .login who
  forever : ¬ 0 < cfg.refreshLife → ∀ who e, s.keys.session who = some e → e.lapses = none
  named : ∀ x ∈ s.started, s.alive x.sid = true → ∃ e f, s.keys.sessionAlive x.sid = some f ∧
    s.keys.session x.who = some e ∧ e.value = x.sid ∧ e.Outlasts f
  window : ∀ call ∈ s.calls, ∀ who, call.point.window = some who →
    ∀ x ∈ s.started, x.who = who → s.alive x.sid = true → call.point.previous = some x.sid

variable {cfg : Config} {s t : State} {a : Action} {op : Op} {p q : Point} {reply : Reply} {c : Nat} {call now : Call}
  {who : Principal} {sid : Sid} {x : Session}

theorem startedAfter (does : Does cfg s a t) (mem : x ∈ t.started) : x ∈ s.started ∨ ∃ c reply call,
    a = .command c reply ∧ reply.ran = true ∧ s.calls[c]? = some call ∧ call.point = .startSession x.who x.sid ∧
      t.keys = effect cfg s.clock s.minted s.keys call.point := by
  cases wrote does with
  | nothing keys started => exact .inl (started ▸ mem)
  | command c reply call p what ran found edge clock minted keys started =>
    rw [started] at mem
    rcases List.mem_append.mp mem with old | new
    · exact .inl old
    · obtain ⟨who,sid,here,rfl⟩ := startsExact new
      exact .inr ⟨c,reply,call,what,ran,found,here,keys⟩

theorem sessionEffect {time : Int} {n : Nat} {k : Keys} :
    (effect cfg time n k p).session who = k.session who ∨
    (∃ sid, p = .startSession who sid ∧ (effect cfg time n k p).session who =
      some ⟨sid,setLapse time cfg.refreshLife ((lookup k.session time who).bind Entry.lapses)⟩) ∨
    (∃ w listed, p = .delSessions w listed) ∨ ∃ token access rec, p = .delCurrent token access rec := by
  cases p with
  | startSession w sid =>
    by_cases same : who = w
    · subst same; exact .inr (.inl ⟨sid,rfl,setSame⟩)
    · exact .inl (setOther same)
  | delSessions w listed => exact .inr (.inr (.inl ⟨w,listed,rfl⟩))
  | delCurrent token access rec => exact .inr (.inr (.inr ⟨token,access,rec,rfl⟩))
  | _ => exact .inl rfl

theorem sessionAfter (who : Principal) (inv : Single cfg s) (does : Does cfg s a t) : t.keys.session who = s.keys.session who ∨
    ∃ c reply call sid, a = .command c reply ∧ reply.ran = true ∧ s.calls[c]? = some call ∧
      call.point = .startSession who sid ∧ t.keys.session who =
        some ⟨sid,setLapse s.clock cfg.refreshLife ((lookup s.keys.session s.clock who).bind Entry.lapses)⟩ := by
  cases wrote does with
  | nothing keys => exact .inl (by rw [keys])
  | command c reply call p what ran found edge clock minted keys =>
    have held := List.mem_of_getElem? found
    have fit := inv.sound.fits call held
    obtain ⟨w,op⟩ := inv.logins call held
    rw [keys]
    rcases sessionEffect (p := call.point) with same | ⟨sid,here,new⟩ | ⟨w',listed,here⟩ | ⟨token,access,rec,here⟩
    · exact .inl same
    · exact .inr ⟨c,reply,call,sid,what,ran,found,here,new⟩
    · rw [here] at fit
      obtain ⟨reason,own | ⟨token,own⟩⟩ := fit <;> exact Op.noConfusion (op.symm.trans own)
    · rw [here] at fit
      exact Op.noConfusion (op.symm.trans fit)

theorem startAlone (turn : InTurn s (.command c reply)) (ran : reply.ran = true) (found : s.calls[c]? = some call)
    (here : call.point = .startSession who sid) {i : Nat} (other : s.calls[i]? = some now) (apart : i ≠ c) :
    now.point.window ≠ some who := by
  simp only [InTurn,inTurn,found,Option.all_some,here,ran,Bool.not_true,Bool.false_or,List.all_eq_true,
    bne_iff_ne,ne_eq] at turn
  exact turn now (List.mem_eraseIdx_iff_getElem?.mpr ⟨i,apart,other⟩)

theorem windowEdge (edge : Edge cfg s op reply p q) (window : q.window = some who) :
    (∃ sid, p = .getSession who sid) ∨ p.window = some who ∧ (q.previous = none ∧
      ∀ old, p.previous = some old → reply = .ok ∧ old ∈ p.ends) := by
  cases edge with
  | @oldSession w sid | @noSession _ w sid =>
    cases window
    exact .inl ⟨sid,rfl⟩
  | endedPrevious fine =>
    refine .inr ⟨window,rfl,fun old was => ?_⟩
    cases was
    exact ⟨endFine fine,List.mem_singleton_self _⟩
  | droppedPrevious => exact .inr ⟨window,rfl,nofun⟩
  | _ => cases window

theorem readsPrevious (inv : Single cfg s) (turn : InTurn s (.command c reply)) (found : s.calls[c]? = some call)
    (here : call.point = .getSession who sid) (goes : next cfg s call.op reply call.point = some q)
    (mem : x ∈ s.started) (whose : x.who = who) (alive : s.alive x.sid = true) : q.previous = some x.sid := by
  subst whose
  obtain ⟨e,f,key,session,same,outlasts⟩ := inv.named x mem alive
  have live : f.live s.clock = true := by rwa [← getLive key]
  have read : get s.keys.session s.clock x.who = some x.sid :=
    getExact.mpr ⟨e,session,outlasts s.clock live,same⟩
  simp only [InTurn,inTurn,found,Option.all_some,here,read,Option.any_some,alive,Bool.not_true,Bool.or_false,
    beq_iff_eq] at turn
  subst turn
  simp only [here,next,read,Option.some.injEq] at goes
  subst goes
  rfl

theorem windowStep (on : cfg.oneSession = true) (inv : Single cfg s) (turn : InTurn s a)
    (one : step cfg s a = some t) (mem : now ∈ t.calls) (window : now.point.window = some who)
    (started : x ∈ t.started) (whose : x.who = who) (alive : t.alive x.sid = true) :
    now.point.previous = some x.sid := by
  have does := stepDoes one
  subst whose
  obtain ⟨i,found⟩ := List.getElem?_of_mem mem
  have was : x ∈ s.started → s.alive x.sid = true :=
    fun old => aliveBefore inv.sound.minted does (List.mem_map_of_mem old) alive
  cases callAfter does found with
  | same before idle =>
    rcases startedAfter does started with old | ⟨c,reply,call,rfl,ran,there,start,-⟩
    · exact inv.window now (List.mem_of_getElem? before) x.who window x old rfl (was old)
    · refine absurd window (startAlone turn ran there start before fun same => ?_)
      exact idle reply (by rw [same])
  | began op what last new =>
    subst new
    cases op with
    | login w =>
      simp only [first,if_pos on] at window
      cases window
    | _ => cases window
  | moved call q before goes new =>
    subst new
    have held := List.mem_of_getElem? before
    have old : x ∈ s.started := by
      rcases startedAfter does started with old | ⟨c,reply,other,what,-,there,start,-⟩
      · exact old
      · cases goes with
        | command edge =>
          cases what
          cases Option.some.inj (before.symm.trans there)
          rw [start] at edge
          cases edge <;> cases window
        | _ => cases what
    cases goes with
    | @command reply _ edge =>
      rcases windowEdge edge window with ⟨sid,here⟩ | ⟨inside,none',ends⟩
      · obtain ⟨q',goes,stands,-⟩ := commandCons ⟨call.before,before⟩ one
        rw [standsOne stands ⟨call.before,found⟩] at goes
        exact readsPrevious inv turn before here goes old rfl (was old)
      · obtain ⟨rfl,ended⟩ := ends x.sid (inv.window call held x.who inside x old rfl (was old))
        rw [endsOver does before ended] at alive
        contradiction
    | _ => cases window

theorem foreverLapse (inv : Single cfg s) (not : ¬ 0 < cfg.refreshLife) :
    setLapse s.clock cfg.refreshLife ((lookup s.keys.session s.clock who).bind Entry.lapses) = none := by
  have old : (lookup s.keys.session s.clock who).bind Entry.lapses = none := by
    cases found : lookup s.keys.session s.clock who with
    | none => rfl
    | some e => exact inv.forever not who e (lookupExact.mp found).1
  rw [setLapse,if_neg not,old,ite_self]

theorem foreverStep (inv : Single cfg s) (does : Does cfg s a t) (not : ¬ 0 < cfg.refreshLife) {e : Entry Sid}
    (raw : t.keys.session who = some e) : e.lapses = none := by
  rcases sessionAfter who inv does with same | ⟨c,reply,call,sid,-,-,-,-,new⟩
  · exact inv.forever not who e (same ▸ raw)
  · rw [new,foreverLapse inv not] at raw
    rw [← Option.some.inj raw]

theorem startNames (inv : Single cfg s) (who : Principal) (sid : Sid) :
    ∃ e f, (startSession cfg s.clock who sid s.keys).sessionAlive sid = some f ∧
      (startSession cfg s.clock who sid s.keys).session who = some e ∧ e.value = sid ∧ e.Outlasts f := by
  refine ⟨_,_,setSame,setSame,rfl,fun later live => ?_⟩
  by_cases positive : 0 < cfg.refreshLife
  · rw [Entry.live,setLapsePositive positive] at live ⊢
    exact live
  · rw [Entry.live,foreverLapse inv positive]
    rfl

theorem namedStep (inv : Single cfg s) (does : Does cfg s a t) (mem : x ∈ t.started)
    (alive : t.alive x.sid = true) : ∃ e f, t.keys.sessionAlive x.sid = some f ∧
      t.keys.session x.who = some e ∧ e.value = x.sid ∧ e.Outlasts f := by
  rcases startedAfter does mem with old | ⟨c,reply,call,-,-,-,here,keys⟩
  · have known : x.sid ∈ s.sids := List.mem_map_of_mem old
    have was := aliveBefore inv.sound.minted does known alive
    obtain ⟨e,f,key,session,same,outlasts⟩ := inv.named x old was
    obtain ⟨uid,found⟩ := Option.isSome_iff_exists.mp alive
    obtain ⟨f',raw,-,-⟩ := getExact.mp found
    cases Option.some.inj (key.symm.trans (aliveRaw inv.sound.minted does known raw))
    rcases sessionAfter x.who inv does with kept | ⟨c,reply,call,sid,-,-,there,start,-⟩
    · exact ⟨e,f,raw,kept.trans session,same,outlasts⟩
    · have none' := inv.window call (List.mem_of_getElem? there) x.who (by rw [start]; rfl) x old rfl was
      rw [start] at none'
      contradiction
  · rw [keys,here]
    exact startNames inv x.who x.sid

theorem loginsStep (inv : Single cfg s) (only : a.logsIn = true) (does : Does cfg s a t) (mem : now ∈ t.calls) :
    ∃ who, now.op = .login who := by
  obtain ⟨c,found⟩ := List.getElem?_of_mem mem
  cases callAfter does found with
  | same before idle => exact inv.logins now (List.mem_of_getElem? before)
  | began op what last new =>
    subst what new
    cases op with
    | login who => exact ⟨who,rfl⟩
    | _ => contradiction
  | moved call p before goes new =>
    rw [new]
    exact inv.logins call (List.mem_of_getElem? before)

theorem singleStep (on : cfg.oneSession = true) (inv : Single cfg s) (both : InTurn s a ∧ a.logsIn = true)
    (one : step cfg s a = some t) : Single cfg t where
  sound := soundStep inv.sound one
  logins := fun _ mem => loginsStep inv both.2 (stepDoes one) mem
  forever := fun not _ _ raw => foreverStep inv (stepDoes one) not raw
  named := fun _ mem alive => namedStep inv (stepDoes one) mem alive
  window := fun _ mem _ inside _ started whose alive => windowStep on inv both.1 one mem inside started whose alive

theorem initSingle (clock : Int) : Single cfg (State.init clock) where
  sound := initSound clock
  logins := fun _ mem => nomatch mem
  forever := fun _ _ _ raw => nomatch raw
  named := fun _ mem => nomatch mem
  window := fun _ mem => nomatch mem

theorem verifiedAlive {schemes : Schemes} {verifier : Verifier} {time : Int} {reads : Reads} {token : AccessToken}
    (moment : reads.alive = s) (named : token.claims.sid = sid) (accepted : Accepted (verify schemes verifier time reads token)) :
    s.alive sid = true := by
  obtain ⟨c,parsed,-,-,-,-,alive⟩ := verifyAccepts.mp accepted
  rwa [(parseHolds.mp parsed).2,named,moment] at alive

theorem oneNamed (inv : Single cfg s) : OneSession s := by
  intro x hx y hy same
  have equal : s.alive x.sid = true → s.alive y.sid = true → x = y := by
    intro ax ay
    obtain ⟨e,f,-,session,vx,-⟩ := inv.named x hx ax
    obtain ⟨e',f',-,session',vy,-⟩ := inv.named y hy ay
    rw [same,session'] at session
    cases Option.some.inj session
    exact Table.sameRow inv.sound.minted.sids hx hy (vx.symm.trans vy)
  exact ⟨equal,fun schemes verifier now reads t u here nt nu first second =>
    equal (verifiedAlive here nt first) (verifiedAlive here nu second)⟩

theorem singleSession (cfg : Config) (on : cfg.oneSession = true) (clock : Int) (as : List Action) (s : State)
    (logins : ∀ a ∈ as, a.logsIn = true) (turns : Along (step cfg) InTurn (State.init clock) as)
    (ok : run (step cfg) (State.init clock) as = some s) : OneSession s :=
  oneNamed (runKeeps (singleStep on) (initSingle clock) (alongAnd turns (alongForall logins (State.init clock))) ok)

def inOrder : List Action :=
  [.call (.login member),.command 0 .ok,.command 0 .ok,.call (.login member),.command 0 .ok,.command 1 .ok,
    .call (.login admin),.command 2 .ok,.command 1 .ok,.command 2 .ok,.command 1 .lost,.command 1 .ok,
    .command 2 .ok,.command 1 .ok]

theorem inOrderSingle : ∃ s, run (step sample) (State.init 0) inOrder = some s ∧ OneSession s := by
  have ok : (run (step sample) (State.init 0) inOrder).isSome = true := by decide
  obtain ⟨s,ok⟩ := Option.isSome_iff_exists.mp ok
  exact ⟨s,ok,singleSession sample rfl 0 inOrder s (by decide) (by decide) ok⟩

def together : List Action :=
  [.call (.login member),.call (.login member),.command 0 .ok,.command 1 .ok,.command 0 .ok,.command 1 .ok,
    .command 0 .ok,.command 1 .ok]

def loggedInTwice : List Call :=
  [⟨.login member,[],.returned 0 (.tokens (issue sample 0 6 ⟨member,0⟩))⟩,
    ⟨.login member,[],.returned 0 (.tokens (issue sample 0 7 ⟨member,1⟩))⟩]

theorem twoSessions : ¬ ∀ (cfg : Config), cfg.oneSession = true → ∀ (clock : Int) (as : List Action) (s : State),
    (∀ a ∈ as, a.logsIn = true) → run (step cfg) (State.init clock) as = some s →
    (∀ call ∈ s.calls, ∃ time pair, call.point = .returned time (.tokens pair)) → OneSession s := by
  intro single
  have facts : (run (step sample) (State.init 0) together).map
      (fun s => (s.calls,s.started,s.alive 0,s.alive 1)) =
      some (loggedInTwice,[⟨0,member,0⟩,⟨1,member,0⟩],true,true) := by decide
  obtain ⟨s,ok,same⟩ := Option.map_eq_some_iff.mp facts
  simp only [Prod.mk.injEq] at same
  obtain ⟨calls,started,first,second⟩ := same
  have returned : ∀ call ∈ s.calls, ∃ time pair, call.point = .returned time (.tokens pair) := by
    rw [calls]
    intro call mem
    rcases List.mem_pair.mp mem with rfl | rfl <;> exact ⟨_,_,rfl⟩
  have one := single sample rfl 0 together s (by decide) ok returned ⟨0,member,0⟩ (by rw [started]; decide)
    ⟨1,member,0⟩ (by rw [started]; decide) rfl
  exact absurd (one.1 first second) (by decide)

end DevkitCommon.Authx
