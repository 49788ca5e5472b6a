import DevkitCommon.Authx.Acceptance
import DevkitCommon.Authx.Retry
import DevkitCommon.Authx.Revocation

/-! Logout finds its session under the refresh token's key. A token that was rotated out
has no key, and a lookup that fails reads the same: Logout then returns nil and ends
nothing. Where the lookup finds the record, nil means the session is over for good. -/
namespace DevkitCommon.Authx
open Machine Redis

def finds (c : Nat) (sid : Sid) (s : State) : Action → Bool
  | .command i reply => i != c || (s.calls[c]?).all (fun call => match call.point with
    | .findLogout token _ => (reply == .ok && (get s.keys.refresh s.clock token).isSome) || !s.alive sid
    | _ => true)
  | _ => true

def Finds (c : Nat) (sid : Sid) (s : State) (a : Action) : Prop := finds c sid s a = true
instance (c : Nat) (sid : Sid) (s : State) (a : Action) : Decidable (Finds c sid s a) := by
  unfold Finds; infer_instance

def LoggedOut (cfg : Config) (s : State) (sid : Sid) : Prop :=
  ∀ later u, run (step cfg) s later = some u →
    (∀ schemes verifier now reads t, reads.alive = u → t.claims.sid = sid →
      ¬ Accepted (verify schemes verifier now reads t)) ∧
    ∀ (i : Nat) call y time pair, s.calls.length ≤ i → u.calls[i]? = some call → y ∈ u.issued →
      y.record.sid = sid → call.op = .refresh y.token → call.point ≠ .returned time (.tokens pair)

def Point.admitted : Point → Bool
  | .rotate _ _ => true
  | p => p.exchanging

inductive Ending (token : Token) (access : Option Claims) (sid : Sid) : Point → Prop where
  | looks : Ending token access sid (.findLogout token access)
  | ends {rec} (same : rec.sid = sid) : Ending token access sid (.endLogout token access rec)
  | failed {time e} : Ending token access sid (.returned time (.error e))
  | crashed : Ending token access sid .crashed

structure Leaving (c : Nat) (y : Issue) (access : Option Claims) (s : State) : Prop where
  sound : Sound s
  issued : y ∈ s.issued
  call : ∃ p, Stands s c (.logout y.token access) p ∧ (Ending y.token access y.record.sid p ∨ s.over y.record.sid)

structure Shut (n : Nat) (sid : Sid) (s : State) : Prop where
  sound : Sound s
  isOver : s.over sid
  admitted : ∀ (i : Nat) call token, n ≤ i → s.calls[i]? = some call → call.op = .refresh token →
    call.point.admitted = true → ∃ y ∈ s.issued, y.token = token ∧ y.record.sid ≠ sid

variable {cfg : Config} {s t : State} {a : Action} {op : Op} {p q : Point} {reply : Reply} {c n : Nat}
  {token : Token} {sid : Sid} {access : Option Claims} {y : Issue} {call : Call} {rec : RefreshRecord}

theorem admittedEdge (edge : Edge cfg s op reply p q) (admitted : q.admitted = true) :
    p.admitted = true ∨ (∃ who sid, p = .startSession who sid) ∨
      ∃ token rec, p = .existsAlive token rec ∧ s.alive rec.sid = true := by
  cases edge with
  | @started who sid => exact .inr (.inl ⟨who,sid,rfl⟩)
  | @alive token rec lives => exact .inr (.inr ⟨token,rec,rfl,lives⟩)
  | stored | rotated => exact .inl rfl
  | _ => simp only [Point.admitted,Point.exchanging,Bool.false_eq_true] at admitted

theorem shutStep (inv : Shut n sid s) (one : step cfg s a = some t) : Shut n sid t := by
  have does := stepDoes one
  refine ⟨soundStep inv.sound one,overKept inv.sound.minted does inv.isOver,?_⟩
  intro i now token late found op admitted
  have kept : (∃ y ∈ s.issued, y.token = token ∧ y.record.sid ≠ sid) →
      ∃ y ∈ t.issued, y.token = token ∧ y.record.sid ≠ sid :=
    fun ⟨y,issued,same⟩ => ⟨y,issuedKept does y issued,same⟩
  cases callAfter does found with
  | same before idle => exact kept (inv.admitted i now token late before op admitted)
  | began op' what last new =>
    subst new
    cases op
    cases admitted
  | moved call p before goes new =>
    subst new
    have held := List.mem_of_getElem? before
    have fit := inv.sound.fits call held
    cases goes with
    | command edge =>
      rcases admittedEdge edge admitted with was | ⟨who,sid',start⟩ | ⟨u,rec,here,lives⟩
      · exact kept (inv.admitted i call token late before op was)
      · rw [start] at fit
        exact Op.noConfusion (op.symm.trans fit)
      · rw [here] at fit
        cases op.symm.trans fit
        obtain ⟨y,issued,same,record⟩ := inv.sound.recorded.reads call held token rec (by rw [here]; rfl)
        refine kept ⟨y,issued,same,fun dead => ?_⟩
        rw [← record,dead,inv.isOver.2] at lives
        contradiction
    | _ => cases admitted

theorem overLoggedOut (sound : Sound s) (isOver : s.over sid) : LoggedOut cfg s sid := by
  intro later u ok
  have shut : Shut s.calls.length sid s :=
    ⟨sound,isOver,fun i call _ past found => by
      rw [List.getElem?_eq_none past] at found
      contradiction⟩
  have shut : Shut s.calls.length sid u := reachableKeeps shutStep shut ⟨later,ok⟩
  refine ⟨?_,?_⟩
  · intro schemes verifier now reads t same named accepted
    obtain ⟨c,parsed,-,-,-,-,alive⟩ := verifyAccepts.mp accepted
    rw [(parseHolds.mp parsed).2,named,same,shut.isOver.2] at alive
    contradiction
  · intro i call y time pair past found issued named op point
    obtain ⟨z,mem,same,other⟩ := shut.admitted i call y.token past found op (by rw [point]; rfl)
    rw [Table.sameRow shut.sound.minted.tokens mem issued same] at other
    exact other named

theorem endingMoves (inv : Leaving c y access s) (found : Finds c y.record.sid s (.command c reply))
    (here : Stands s c (.logout y.token access) p) (ending : Ending y.token access y.record.sid p)
    (one : step cfg s (.command c reply) = some t) :
    ∃ q, Stands t c (.logout y.token access) q ∧ (Ending y.token access y.record.sid q ∨ t.over y.record.sid) := by
  have does := stepDoes one
  have known : y.record.sid ∈ s.sids := by
    obtain ⟨x,started,same,-⟩ := inv.sound.recorded.issued y inv.issued
    exact same ▸ List.mem_map_of_mem started
  obtain ⟨q,goes,stands,-⟩ := commandCons here one
  refine ⟨q,stands,?_⟩
  obtain ⟨before,call⟩ := here
  cases ending with
  | looks =>
    simp only [Finds,finds,bne_self_eq_false,Bool.false_or,call,Option.all_some,Bool.or_eq_true,Bool.and_eq_true,
      beq_iff_eq,Bool.not_eq_true'] at found
    rcases found with ⟨rfl,some'⟩ | dead
    · obtain ⟨rec,found⟩ := Option.isSome_iff_exists.mp some'
      obtain ⟨e,raw,-,same⟩ := getExact.mp found
      have own := ownsRecord inv.sound.minted inv.issued (inv.sound.recorded.refresh y.token e raw)
      simp only [next,found,Option.some.injEq] at goes
      subst goes
      exact .inl (.ends (by rw [← same,own]))
    · exact .inr (overKept inv.sound.minted does ⟨known,dead⟩)
  | ends same =>
    simp only [next,Option.some.injEq] at goes
    subst goes
    split
    · exact .inl .failed
    · rename_i fine
      have ok := endFine (by simpa using fine)
      subst ok
      exact .inr ⟨sidsKept does known,endsOver does call (by rw [← same]; exact List.mem_singleton_self _)⟩
  | failed => simp only [next,reduceCtorEq] at goes
  | crashed => simp only [next,reduceCtorEq] at goes

theorem leavingStep (inv : Leaving c y access s) (found : Finds c y.record.sid s a) (one : step cfg s a = some t) :
    Leaving c y access t := by
  have does := stepDoes one
  refine ⟨soundStep inv.sound one,issuedKept does y inv.issued,?_⟩
  obtain ⟨p,⟨before,here⟩,rest⟩ := inv.call
  have short := (List.getElem?_eq_some_iff.mp here).1
  obtain ⟨now,there⟩ : ∃ now, t.calls[c]? = some now :=
    ⟨_,List.getElem?_eq_getElem (Nat.lt_of_lt_of_le short (callsGrow does))⟩
  cases callAfter does there with
  | same held idle =>
    cases Option.some.inj (here.symm.trans held)
    exact ⟨p,⟨before,there⟩,rest.imp id (overKept inv.sound.minted does)⟩
  | began op what last new => exact absurd last (Nat.ne_of_lt short)
  | moved call q held goes new =>
    cases Option.some.inj (here.symm.trans held)
    rcases rest with ending | isOver
    · cases goes with
      | command edge => exact endingMoves inv found ⟨before,here⟩ ending one
      | listed point => cases ending <;> cases point
      | noneListed point => cases ending <;> cases point
      | crash running => exact ⟨_,⟨before,new ▸ there⟩,.inl .crashed⟩
    · exact ⟨q,⟨before,new ▸ there⟩,.inr (overKept inv.sound.minted does isOver)⟩

theorem loggedOut (cfg : Config) (clock : Int) (as bs : List Action) (s t : State) (y : Issue)
    (access : Option Claims) (time : Int)
    (before : run (step cfg) (State.init clock) as = some s) (issued : y ∈ s.issued)
    (finds : Along (step cfg) (Finds s.calls.length y.record.sid) s (.call (.logout y.token access)::bs))
    (ok : run (step cfg) s (.call (.logout y.token access)::bs) = some t)
    (done : Stands t s.calls.length (.logout y.token access) (.returned time .done)) :
    LoggedOut cfg t y.record.sid := by
  have sound : Sound s := soundReachable ⟨as,before⟩
  obtain ⟨u,called,more⟩ := runCons.mp ok
  obtain ⟨-,later⟩ := (alongCons called).mp finds
  obtain ⟨stands,-,-,-,same⟩ := callCons called
  have start : Leaving s.calls.length y access u :=
    ⟨soundStep sound called,same ▸ issued,_,stands,.inl .looks⟩
  obtain ⟨sound,-,p,stands,rest⟩ := runKeeps leavingStep start later more
  refine overLoggedOut sound (rest.resolve_left fun ending => ?_)
  rw [standsOne stands done] at ending
  cases ending

def leftWith (as bs later : List Action) : Option (State × State × State) := do
  let s ← run (step sample) (State.init 0) as
  let t ← run (step sample) s (.call (.logout 3 none)::bs)
  let u ← run (step sample) t later
  some (s,t,u)

theorem leftRuns {as bs later : List Action} {s t u : State} (left : leftWith as bs later = some (s,t,u)) :
    run (step sample) (State.init 0) as = some s ∧
    run (step sample) s (.call (.logout 3 none)::bs) = some t ∧ run (step sample) t later = some u := by
  simp only [leftWith,bind,Option.bind_eq_some_iff,Option.some.injEq,Prod.mk.injEq] at left
  obtain ⟨s',first,t',second,u',third,rfl,rfl,rfl⟩ := left
  exact ⟨first,second,third⟩

def leaves : List Action :=
  [.command 1 .ok,.command 1 .ok,.command 1 .failed,.command 1 .failed,.command 1 .failed]

theorem leftForGood : ∃ s t u, leftWith loggedIn leaves [] = some (s,t,u) ∧ LoggedOut sample t 0 := by
  have facts : (leftWith loggedIn leaves []).map (fun all => (all.1.calls.length,all.1.issued,all.2.1.calls[1]?,
      decide (Along (step sample) (Finds 1 0) all.1 (.call (.logout 3 none)::leaves)))) =
      some (1,[⟨3,⟨member,0⟩,0⟩],some ⟨.logout 3 none,[0],.returned 0 .done⟩,true) := by decide
  obtain ⟨⟨s,t,u⟩,left,same⟩ := Option.map_eq_some_iff.mp facts
  simp only [Prod.mk.injEq,decide_eq_true_eq] at same
  obtain ⟨one,issued,call,found⟩ := same
  obtain ⟨before,ok,-⟩ := leftRuns left
  have mem : (⟨3,⟨member,0⟩,0⟩ : Issue) ∈ s.issued := by
    rw [issued]
    exact List.mem_singleton_self _
  exact ⟨s,t,u,left,loggedOut sample 0 loggedIn leaves s t ⟨3,⟨member,0⟩,0⟩ none 0 before mem
    (by rw [one]; exact found) ok ⟨[0],by rw [one]; exact call⟩⟩

def rotatedOut : List Action := loggedIn ++
  [.call (.refresh 3),.command 1 .ok,.command 1 .ok,.command 1 .ok,.command 1 .ok]

def refreshedOn : List Action :=
  [.call (.refresh 8),.command 3 .ok,.command 3 .ok,.command 3 .ok,.command 3 .ok]

theorem rotatedOutStays : ¬ ∀ (cfg : Config) (clock : Int) (as bs : List Action) (s t : State) (y : Issue)
    (access : Option Claims) (time : Int), run (step cfg) (State.init clock) as = some s → y ∈ s.issued →
    run (step cfg) s (.call (.logout y.token access)::bs) = some t →
    Stands t s.calls.length (.logout y.token access) (.returned time .done) → LoggedOut cfg t y.record.sid := by
  intro claimed
  have facts : (leftWith rotatedOut [.command 2 .ok] refreshedOn).map (fun all => ((all.1.calls.length,all.1.issued),
      (all.2.1.calls.length,all.2.1.calls[2]?),all.2.2.calls[3]?,all.2.2.issued)) =
      some ((2,[⟨3,⟨member,0⟩,0⟩,⟨8,⟨member,0⟩,0⟩]),(3,some ⟨.logout 3 none,[0],.returned 0 .done⟩),
        some ⟨.refresh 8,[0],.returned 0 (.tokens (issue sample 0 15 ⟨member,0⟩))⟩,
        [⟨3,⟨member,0⟩,0⟩,⟨8,⟨member,0⟩,0⟩,⟨15,⟨member,0⟩,0⟩]) := by decide
  obtain ⟨⟨s,t,u⟩,left,same⟩ := Option.map_eq_some_iff.mp facts
  simp only [Prod.mk.injEq] at same
  obtain ⟨⟨two,issued⟩,⟨three,done⟩,pair,more⟩ := same
  obtain ⟨before,ok,later⟩ := leftRuns left
  have shut := claimed sample 0 rotatedOut [.command 2 .ok] s t ⟨3,⟨member,0⟩,0⟩ none 0 before
    (by rw [issued]; exact List.mem_cons_self) ok ⟨[0],by rw [two]; exact done⟩
  exact (shut refreshedOn u later).2 3 _ ⟨8,⟨member,0⟩,0⟩ 0 _ (Nat.le_of_eq three) pair
    (by rw [more]; decide) rfl rfl rfl

end DevkitCommon.Authx
