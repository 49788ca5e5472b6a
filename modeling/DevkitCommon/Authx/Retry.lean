import DevkitCommon.Authx.Lifetime
import DevkitCommon.Authx.Rotation

/-! A Refresh that fails and is tried again. Its third command deletes the refresh key:
the rotation before the new token is stored, or the Del after an EXISTS whose error reads
as a dead session. Where that command reached Redis the token is gone. -/
namespace DevkitCommon.Authx
open Machine Redis

def sends (c : Nat) : List (Nat × Reply) → List Action
  | [] => []
  | (wait,reply)::rest => .tick wait::.command c reply::sends c rest

def deletes : List (Nat × Reply) → Bool
  | (_,.ok)::_::(_,reply)::_ => reply.ran
  | _ => false

variable {cfg : Config} {s t u : State} {op : Op} {p q : Point} {c : Nat} {wait : Nat} {reply : Reply}
  {token : Token} {rec : RefreshRecord} {rest : List (Nat × Reply)} {time : Int} {e : Err}

theorem sendsCons (here : Stands s c op p) (ok : run (step cfg) s (sends c ((wait,reply)::rest)) = some t) :
    ∃ q u, next cfg {s with clock := s.clock + wait} op reply p = some q ∧ Stands u c op q ∧
      u.clock = s.clock + wait ∧ u.minted = s.minted + 1 ∧
      u.keys = (if reply.ran then effect cfg (s.clock + wait) s.minted s.keys p else s.keys) ∧
      run (step cfg) u (sends c rest) = some t := by
  obtain ⟨v,ticks,more⟩ := runCons.mp ok
  cases Option.some.inj ticks
  obtain ⟨u,one,last⟩ := runCons.mp more
  obtain ⟨q,goes,stands,clock,minted,keys⟩ := commandCons (s := {s with clock := s.clock + wait}) here one
  exact ⟨q,u,goes,stands,clock,minted,keys,last⟩

theorem sendsReturned {r : Result} (here : Stands s c op (.returned time r))
    (ok : run (step cfg) s (sends c rest) = some t) : rest = [] ∧ t = s := by
  cases rest with
  | nil => exact ⟨rfl,(Option.some.inj ok).symm⟩
  | cons first rest =>
    obtain ⟨q,u,goes,-⟩ := sendsCons here ok
    simp only [next,reduceCtorEq] at goes

theorem runClock {as : List Action} (ok : run (step cfg) s as = some t) : s.clock ≤ t.clock :=
  have later : ∀ {u v : State} {a : Action}, s.clock ≤ u.clock → True → step cfg u a = some v → s.clock ≤ v.clock :=
    fun before _ one => Int.le_trans before (clockAfter (stepDoes one))
  runKeeps later (Int.le_refl _) (alongTrue s as) ok

def Untouched (s t : State) (token : Token) (sid : Sid) : Prop :=
  t.keys.refresh token = s.keys.refresh token ∧ t.keys.sessionAlive sid = s.keys.sessionAlive sid

theorem acceptsUntouched (same : Untouched s t token rec.sid)
    (current : get s.keys.refresh t.clock token = some rec)
    (lives : (get s.keys.sessionAlive t.clock rec.sid).isSome = true) : Accepts cfg t token := by
  have found : get t.keys.refresh t.clock token = some rec := (getCongr same.1).trans current
  have alive : t.alive rec.sid = true := by rw [State.alive,getCongr same.2,lives]
  have answers : if t.alive rec.sid then Accepts cfg t token
      else ∃ reason, refreshAlone cfg t token = some (.error (.sessionRevoked reason)) := refreshAloneExact found
  rwa [if_pos alive] at answers

theorem refusedGone (gone : t.keys.refresh token = none) : ¬ Accepts cfg t token := by
  rintro ⟨pair,accepted⟩
  obtain ⟨y,ok,-⟩ := Option.bind_eq_some_iff.mp accepted
  obtain ⟨u,called,more⟩ := runCons.mp ok
  obtain ⟨here,-,-,keys,-⟩ := callCons called
  obtain ⟨v,one,more⟩ := runCons.mp more
  obtain ⟨q,goes,stands,-⟩ := commandCons here one
  simp only [first,next,if_true,keys,getNone gone,Option.some.injEq] at goes
  subst goes
  obtain ⟨w,two,more⟩ := runCons.mp more
  obtain ⟨q,goes,stands,-⟩ := commandCons stands two
  obtain ⟨x,three,-⟩ := runCons.mp more
  obtain ⟨q',goes',-⟩ := commandCons stands three
  simp only [next,Option.some.injEq] at goes
  subst goes
  split at goes' <;> cases goes'

theorem afterDelete {sid : Sid} (here : Stands s c op q) (old : token < s.minted)
    (which : (∃ rec now, q = .storeRefresh rec now) ∨ (∃ rec, q = .getEnded rec) ∨
      ∃ time e, q = .returned time (.error e))
    (ok : run (step cfg) s (sends c rest) = some t) (ends : Stands t c op (.returned time (.error e))) :
    Untouched s t token sid := by
  cases rest with
  | nil => cases Option.some.inj ok; exact ⟨rfl,rfl⟩
  | cons first rest =>
    obtain ⟨wait,reply⟩ := first
    obtain ⟨q',u,goes,stands,-,-,keys,more⟩ := sendsCons here ok
    rcases which with ⟨rec,now,rfl⟩ | ⟨rec,rfl⟩ | ⟨time,e,rfl⟩
    · have returned : ∃ time r, q' = .returned time r := by
        simp only [next,Option.some.injEq] at goes
        subst goes
        split <;> exact ⟨_,_,rfl⟩
      obtain ⟨time',r,rfl⟩ := returned
      obtain ⟨-,rfl⟩ := sendsReturned stands more
      rw [Untouched,keys]
      split
      · exact ⟨setOther (Nat.ne_of_lt old),rfl⟩
      · exact ⟨rfl,rfl⟩
    · simp only [next,Option.some.injEq] at goes
      subst goes
      obtain ⟨-,rfl⟩ := sendsReturned stands more
      rw [Untouched,keys]
      split <;> exact ⟨rfl,rfl⟩
    · simp only [next,reduceCtorEq] at goes

theorem fromDelete (here : Stands s c (.refresh token) p) (old : token < s.minted)
    (which : p = .rotate token rec ∨ p = .delRevoked token rec)
    (ok : run (step cfg) s (sends c ((wait,reply)::rest)) = some t)
    (ends : Stands t c (.refresh token) (.returned time (.error e))) :
    if reply.ran then t.keys.refresh token = none else Untouched s t token rec.sid := by
  obtain ⟨q,u,goes,stands,-,minted,keys,more⟩ := sendsCons here ok
  have after : (∃ rec now, q = .storeRefresh rec now) ∨ (∃ rec, q = .getEnded rec) ∨
      ∃ time e, q = .returned time (.error e) := by
    rcases which with rfl | rfl
    · simp only [next,Option.some.injEq] at goes
      subst goes
      split
      · exact .inl ⟨_,_,rfl⟩
      · exact .inr (.inr ⟨_,_,rfl⟩)
    · simp only [next,Option.some.injEq] at goes
      subst goes
      exact .inr (.inl ⟨_,rfl⟩)
  have newer : token < u.minted := minted ▸ Nat.lt_succ_of_lt old
  have same : Untouched u t token rec.sid := afterDelete stands newer after more ends
  split
  · rename_i ran
    rw [same.1,keys,if_pos ran]
    rcases which with rfl | rfl <;> exact delSame
  · rename_i lost
    rw [if_neg lost] at keys
    exact ⟨same.1.trans (by rw [keys]),same.2.trans (by rw [keys])⟩

theorem unsent (here : Stands s c op p) (ok : run (step cfg) s (sends c []) = some t) (ends : Stands t c op q) :
    p = q := by
  cases Option.some.inj ok
  exact standsOne here ends

theorem fromAlive (here : Stands s c (.refresh token) (.existsAlive token rec)) (old : token < s.minted)
    (ok : run (step cfg) s (sends c rest) = some t)
    (ends : Stands t c (.refresh token) (.returned time (.error e))) :
    if deletes ((wait,.ok)::rest) then t.keys.refresh token = none else Untouched s t token rec.sid := by
  cases rest with
  | nil => exact Point.noConfusion (unsent here ok ends)
  | cons first rest =>
    obtain ⟨wait,reply⟩ := first
    obtain ⟨q,u,goes,stands,-,minted,keys,more⟩ := sendsCons here ok
    have which : q = .rotate token rec ∨ q = .delRevoked token rec := by
      simp only [next,Option.some.injEq] at goes
      subst goes
      split
      · exact .inl rfl
      · exact .inr rfl
    have same : u.keys = s.keys := by rw [keys]; split <;> rfl
    have newer : token < u.minted := minted ▸ Nat.lt_succ_of_lt old
    cases rest with
    | nil =>
      have point := unsent stands more ends
      rcases which with rfl | rfl <;> cases point
    | cons first rest =>
      have gone := fromDelete stands newer which more ends
      rwa [Untouched,same] at gone

theorem failedRefresh {pattern : List (Nat × Reply)} (here : Stands s c (.refresh token) (.getRefresh token))
    (old : token < s.minted) (ok : run (step cfg) s (sends c pattern) = some t)
    (failed : Stands t c (.refresh token) (.returned time (.error e)))
    (current : get s.keys.refresh t.clock token = some rec) :
    if deletes pattern then t.keys.refresh token = none else Untouched s t token rec.sid := by
  cases pattern with
  | nil => exact Point.noConfusion (unsent here ok failed)
  | cons first rest =>
    obtain ⟨wait,reply⟩ := first
    obtain ⟨q,u,goes,stands,clock,minted,keys,more⟩ := sendsCons here ok
    have same : u.keys = s.keys := by rw [keys]; split <;> rfl
    have found : get s.keys.refresh (s.clock + wait) token = some rec :=
      getBefore current (clock ▸ runClock more)
    cases reply with
    | ok =>
      simp only [next,if_true,found,Option.some.injEq] at goes
      subst goes
      have newer : token < u.minted := minted ▸ Nat.lt_succ_of_lt old
      have gone : if deletes ((wait,.ok)::rest) then t.keys.refresh token = none
          else Untouched u t token rec.sid := fromAlive stands newer more failed
      rwa [Untouched,same] at gone
    | lost | failed =>
      simp only [next,reduceCtorEq,if_false,Option.some.injEq] at goes
      subst goes
      obtain ⟨rfl,rfl⟩ := sendsReturned stands more
      simp only [deletes,Bool.false_eq_true,if_false,Untouched,same,and_self]

theorem retryAccepted (cfg : Config) (clock : Int) (s t : State) (token : Token) (rec : RefreshRecord)
    (pattern : List (Nat × Reply)) (time : Int) (e : Err) (later : Nat)
    (reach : Reachable (step cfg) (State.init clock) s)
    (ok : run (step cfg) s (.call (.refresh token) :: sends s.calls.length pattern) = some t)
    (failed : Stands t s.calls.length (.refresh token) (.returned time (.error e)))
    (current : get s.keys.refresh (t.clock + later) token = some rec)
    (lives : (get s.keys.sessionAlive (t.clock + later) rec.sid).isSome = true) :
    Accepts cfg {t with clock := t.clock + later} token ↔ deletes pattern = false := by
  have minted : Minted s := reachableKeeps mintedStep (initMinted clock) reach
  have old : token < s.minted := by
    by_contra new
    have raw := minted.refresh token (Nat.le_of_not_lt new)
    rw [getNone raw] at current
    contradiction
  obtain ⟨u,called,more⟩ := runCons.mp ok
  obtain ⟨here,-,newer,keys,-⟩ := callCons called
  have left := failedRefresh here (newer ▸ Nat.lt_succ_of_lt old) more failed
    (keys ▸ getBefore current (by omega))
  rw [Untouched,keys] at left
  cases gone : deletes pattern with
  | true =>
    rw [if_pos gone] at left
    exact ⟨fun accepted => absurd accepted (refusedGone left),Bool.noConfusion⟩
  | false =>
    rw [if_neg (by rw [gone]; exact Bool.false_ne_true)] at left
    exact ⟨fun _ => rfl,fun _ => acceptsUntouched left current lives⟩

def triedWith (pattern : List (Nat × Reply)) : Option (State × State) := do
  let s ← run (step sample) (State.init 0) loggedIn
  let t ← run (step sample) s (.call (.refresh 3) :: sends 1 pattern)
  some (s,t)

theorem triedRuns {pattern : List (Nat × Reply)} {s t : State} (tried : triedWith pattern = some (s,t))
    (one : s.calls.length = 1) : run (step sample) (State.init 0) loggedIn = some s ∧
    run (step sample) s (.call (.refresh 3) :: sends s.calls.length pattern) = some t := by
  simp only [triedWith,bind,Option.bind_eq_some_iff,Option.some.injEq,Prod.mk.injEq] at tried
  obtain ⟨s',first,t',second,rfl,rfl⟩ := tried
  exact ⟨first,by rw [one]; exact second⟩

theorem lookupRetried : ∃ s t, triedWith [(5,.failed)] = some (s,t) ∧
    Accepts sample {t with clock := t.clock + 60000} 3 := by
  have facts : (triedWith [(5,.failed)]).map (fun both => (both.1.calls.length,both.2.calls[1]?,
      get both.1.keys.refresh (both.2.clock + (60000 : Nat)) 3,
      (get both.1.keys.sessionAlive (both.2.clock + (60000 : Nat)) 0).isSome)) =
      some (1,some ⟨.refresh 3,[0],.returned 5 (.error (.redis "authx: refresh lookup"))⟩,
        some ⟨member,0⟩,true) := by decide
  obtain ⟨⟨s,t⟩,tried,same⟩ := Option.map_eq_some_iff.mp facts
  simp only [Prod.mk.injEq] at same
  obtain ⟨one,ends,current,lives⟩ := same
  obtain ⟨login,ok⟩ := triedRuns tried one
  exact ⟨s,t,tried,(retryAccepted sample 0 s t 3 ⟨member,0⟩ [(5,.failed)] 5 _ 60000 ⟨_,login⟩ ok
    ⟨[0],by rw [one]; exact ends⟩ current lives).mpr rfl⟩

theorem retryReplayed : ¬ ∀ (cfg : Config) (clock : Int) (s t : State) (token : Token) (rec : RefreshRecord)
    (pattern : List (Nat × Reply)) (time : Int) (e : Err) (later : Nat),
    Reachable (step cfg) (State.init clock) s →
    run (step cfg) s (.call (.refresh token) :: sends s.calls.length pattern) = some t →
    Stands t s.calls.length (.refresh token) (.returned time (.error e)) →
    get s.keys.refresh (t.clock + later) token = some rec →
    (get s.keys.sessionAlive (t.clock + later) rec.sid).isSome = true →
    Accepts cfg {t with clock := t.clock + later} token := by
  intro accepted
  have facts : (triedWith [(0,.ok),(0,.ok),(5,.lost)]).map (fun both => (both.1.calls.length,both.2.calls[1]?,
      (get both.1.keys.refresh (both.2.clock + (60000 : Nat)) 3,
      (get both.1.keys.sessionAlive (both.2.clock + (60000 : Nat)) 0).isSome),
      refreshAlone sample {both.2 with clock := both.2.clock + 60000} 3)) =
      some (1,some ⟨.refresh 3,[0],.returned 5 (.error (.redis "authx: rotate"))⟩,
        (some ⟨member,0⟩,true),none) := by decide
  obtain ⟨⟨s,t⟩,tried,same⟩ := Option.map_eq_some_iff.mp facts
  simp only [Prod.mk.injEq] at same
  obtain ⟨one,ends,⟨current,lives⟩,alone⟩ := same
  obtain ⟨login,ok⟩ := triedRuns tried one
  obtain ⟨pair,got⟩ := accepted sample 0 s t 3 ⟨member,0⟩ [(0,.ok),(0,.ok),(5,.lost)] 5 _ 60000 ⟨_,login⟩ ok
    ⟨[0],by rw [one]; exact ends⟩ current lives
  have both := alone.symm.trans got
  contradiction

end DevkitCommon.Authx
