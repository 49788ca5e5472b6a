import DevkitCommon.Authx.Session

/-! What one step of the Issuer's calls can do: the calls it moves, the keys it writes,
and which calls can be at which point. The laws about sessions and tokens rest on this
alone and never open a command. -/
namespace DevkitCommon.Authx
open Machine Redis
variable {cfg : Config} {s t : State} {a : Action}

section Steps
variable (cfg : Config) (s : State)

inductive Edge (op : Op) : Reply → Point → Point → Prop where
  | oldSession {who sid old} (found : get s.keys.session s.clock who = some old) :
      Edge op .ok (.getSession who sid) (.endPrevious who sid old)
  | noSession {reply who sid} : Edge op reply (.getSession who sid) (.startSession who sid)
  | endedPrevious {reply who sid old} (fine : endFails cfg reasonReplaced reply = false) :
      Edge op reply (.endPrevious who sid old) (.dropPrevious who sid old)
  | droppedPrevious {reply who sid old} :
      Edge op reply (.dropPrevious who sid old) (.startSession who sid)
  | started {who sid} : Edge op .ok (.startSession who sid) (.storeRefresh ⟨who,sid⟩ s.clock)
  | stored {rec now} : Edge op .ok (.storeRefresh rec now)
      (.returned s.clock (.tokens (issue cfg now s.minted rec)))
  | current {token rec} (found : get s.keys.refresh s.clock token = some rec) :
      Edge op .ok (.getRefresh token) (.existsAlive token rec)
  | gone {token} (missing : get s.keys.refresh s.clock token = none) :
      Edge op .ok (.getRefresh token) (.getUsed token)
  | replay {token rec} (found : get s.keys.used s.clock token = some rec) :
      Edge op .ok (.getUsed token) (.listSessions rec.who reasonRefreshReplayed)
  | alive {token rec} (lives : s.alive rec.sid = true) :
      Edge op .ok (.existsAlive token rec) (.rotate token rec)
  | dead {reply token rec} (shut : ¬ (reply = .ok ∧ s.alive rec.sid = true)) :
      Edge op reply (.existsAlive token rec) (.delRevoked token rec)
  | dropped {reply token rec} : Edge op reply (.delRevoked token rec) (.getEnded rec)
  | rotated {token rec} : Edge op .ok (.rotate token rec) (.storeRefresh rec s.clock)
  | unlisted {reply who reason} (failed : reply ≠ .ok) :
      Edge op reply (.listSessions who reason) (.delSessions who [])
  | endedOne {reply who reason listed sid more rest} (fine : endFails cfg reason reply = false) :
      Edge op reply (.endListed who reason listed sid (more::rest)) (.endListed who reason listed more rest)
  | endedLast {reply who reason listed sid} (fine : endFails cfg reason reply = false) :
      Edge op reply (.endListed who reason listed sid []) (.delSessions who listed)
  | replayCut {reply token who reason listed sid rest} (replay : op = .refresh token)
      (fails : endFails cfg reason reply = true) :
      Edge op reply (.endListed who reason listed sid rest)
        (.returned s.clock (.error .refreshReplayed))
  | replayEnds {reply token who listed} (replay : op = .refresh token) :
      Edge op reply (.delSessions who listed) (.returned s.clock (.error .refreshReplayed))
  | revokedAll {who listed} (own : ∀ token, op ≠ .refresh token) :
      Edge op .ok (.delSessions who listed) (.returned s.clock .done)
  | loggedIn {token access rec} (found : get s.keys.refresh s.clock token = some rec) :
      Edge op .ok (.findLogout token access) (.endLogout token access rec)
  | endedLogout {reply token access rec} (fine : endFails cfg reasonLogout reply = false) :
      Edge op reply (.endLogout token access rec) (.getCurrent token access rec)
  | isCurrent {token access rec} (found : get s.keys.session s.clock rec.who = some rec.sid) :
      Edge op .ok (.getCurrent token access rec) (.delCurrent token access rec)
  | notCurrent {reply token access rec} :
      Edge op reply (.getCurrent token access rec) (.dropLogout token access rec)
  | delCurrent {reply token access rec} :
      Edge op reply (.delCurrent token access rec) (.dropLogout token access rec)
  | droppedLogout {reply token access rec} :
      Edge op reply (.dropLogout token access rec) (.delLogout token access)
  | blacklists {reply p token access c ttl} (last : p = .findLogout token access ∨ p = .delLogout token access) :
      Edge op reply p (.blacklist c ttl)
  | loggedOut {reply p token access} (last : p = .findLogout token access ∨ p = .delLogout token access) :
      Edge op reply p (.returned s.clock .done)
  | blacklisted {reply c ttl} : Edge op reply (.blacklist c ttl) (.returned s.clock .done)
  | refused {reply p e} (other : e ≠ .refreshReplayed) :
      Edge op reply p (.returned s.clock (.error e))

inductive Leaves (c : Nat) (call : Call) : Action → Point → Prop where
  | command {reply p} (edge : Edge cfg s call.op reply call.point p) :
      Leaves c call (.command c reply) p
  | listed {who reason sid rest} (here : call.point = .listSessions who reason)
      (all : (sid::rest).Perm (members s.keys.sessionSet s.clock who)) :
      Leaves c call (.listed c (sid::rest)) (.endListed who reason (sid::rest) sid rest)
  | noneListed {who reason} (here : call.point = .listSessions who reason)
      (all : members s.keys.sessionSet s.clock who = []) :
      Leaves c call (.listed c []) (.delSessions who [])
  | crash (running : call.point.running = true) : Leaves c call (.crash c) .crashed

inductive Does : Action → State → Prop where
  | tick (d : Nat) : Does (.tick d) {s with clock := s.clock + d}
  | call (op : Op) : Does (.call op) {s with
      calls := s.calls ++ [⟨op,aliveNow s,first cfg s op⟩]
      minted := s.minted + 1}
  | command {c call reply p} (found : s.calls[c]? = some call)
      (goes : next cfg s call.op reply call.point = some p) :
      Does (.command c reply) ((s.send cfg call.point reply).goto c call p)
  | listed {c call who reason sids} (found : s.calls[c]? = some call)
      (here : call.point = .listSessions who reason)
      (all : sids.Perm (members s.keys.sessionSet s.clock who)) :
      Does (.listed c sids) (s.goto c call (endEach who reason sids sids))
  | crash {c call} (found : s.calls[c]? = some call) (running : call.point.running = true) :
      Does (.crash c) (s.goto c call .crashed)

end Steps

theorem accessEdge {op reply p token access}
    (last : p = .findLogout token access ∨ p = .delLogout token access) :
    Edge cfg s op reply p (logoutAccess cfg s.clock access) := by
  unfold logoutAccess
  split
  · exact .loggedOut last
  · split
    · exact .blacklists last
    · exact .loggedOut last

theorem answeredOr {op reply p q e} (goes : reply = .ok → Edge cfg s op reply p q) (other : e ≠ .refreshReplayed) :
    Edge cfg s op reply p (if reply = .ok then q else .returned s.clock (.error e)) := by
  split
  · exact goes (by assumption)
  · exact .refused other

theorem endedOr {op reply p q reason} (goes : endFails cfg reason reply = false → Edge cfg s op reply p q) :
    Edge cfg s op reply p (if endFails cfg reason reply then .returned s.clock (.error (.redis "")) else q) := by
  split
  · exact .refused Err.noConfusion
  · rename_i fine
    exact goes (by simpa using fine)

theorem nextEdge {op reply p q} (goes : next cfg s op reply p = some q) : Edge cfg s op reply p q := by
  cases p <;> simp only [next,Option.some.injEq,reduceCtorEq,Option.ite_none_left_eq_some] at goes
  case getSession =>
    subst goes
    split
    · exact .oldSession (by assumption)
    · exact .noSession
  case endPrevious => subst goes; exact endedOr .endedPrevious
  case dropPrevious => subst goes; exact .droppedPrevious
  case startSession => subst goes; exact answeredOr (fun ok => ok ▸ .started) Err.noConfusion
  case storeRefresh => subst goes; exact answeredOr (fun ok => ok ▸ .stored) Err.noConfusion
  case getRefresh =>
    subst goes
    refine answeredOr (fun ok => ?_) Err.noConfusion
    subst ok
    split
    · exact .current (by assumption)
    · exact .gone (by assumption)
  case getUsed =>
    subst goes
    split
    · exact .replay (by assumption)
    · exact .refused Err.noConfusion
  case existsAlive =>
    subst goes
    split
    · rename_i both
      obtain ⟨rfl,alive⟩ := both
      exact .alive alive
    · exact .dead (by assumption)
  case delRevoked => subst goes; exact .dropped
  case getEnded => subst goes; exact .refused Err.noConfusion
  case rotate => subst goes; exact answeredOr (fun ok => ok ▸ .rotated) Err.noConfusion
  case listSessions =>
    obtain ⟨failed,rfl⟩ := goes
    exact .unlisted failed
  case endListed who reason listed sid rest =>
    subst goes
    split
    · cases op with
      | refresh token => exact .replayCut rfl (by assumption)
      | _ => exact .refused Err.noConfusion
    · rename_i fine
      cases rest with
      | nil => exact .endedLast (by simpa using fine)
      | cons more rest => exact .endedOne (by simpa using fine)
  case delSessions =>
    subst goes
    cases op with
    | refresh token => exact .replayEnds rfl
    | _ =>
      split
      · rename_i ok; subst ok; exact .revokedAll (fun _ => Op.noConfusion)
      · exact .refused Err.noConfusion
  case findLogout =>
    subst goes
    split
    · exact .loggedIn (by assumption)
    · exact accessEdge (.inl rfl)
  case endLogout => subst goes; exact endedOr .endedLogout
  case getCurrent =>
    subst goes
    split
    · rename_i both
      obtain ⟨rfl,found⟩ := both
      exact .isCurrent found
    · exact .notCurrent
  case delCurrent => subst goes; exact .delCurrent
  case dropLogout => subst goes; exact .droppedLogout
  case delLogout => subst goes; exact accessEdge (.inr rfl)
  case blacklist => subst goes; exact .blacklisted

theorem stepDoes (one : step cfg s a = some t) : Does cfg s a t := by
  cases a with
  | tick d => cases Option.some.inj one; exact .tick d
  | call op => cases Option.some.inj one; exact .call op
  | command c reply =>
    simp only [step,bind,Option.bind_eq_some_iff] at one
    obtain ⟨call,found,p,goes,last⟩ := one
    cases Option.some.inj last
    exact .command found goes
  | listed c sids =>
    simp only [step,bind,Option.bind_eq_some_iff] at one
    obtain ⟨call,found,last⟩ := one
    split at last <;> try contradiction
    rename_i who reason here
    split at last <;> try contradiction
    rename_i all
    cases Option.some.inj last
    exact .listed found here all
  | crash c =>
    simp only [step,bind,Option.bind_eq_some_iff] at one
    obtain ⟨call,found,last⟩ := one
    split at last <;> try contradiction
    rename_i running
    cases Option.some.inj last
    exact .crash found running

section Send
variable {p : Point} {reply : Reply} {c : Nat} {call : Call}

@[simp] theorem sendCalls : (s.send cfg p reply).calls = s.calls := by
  unfold State.send; split <;> rfl
@[simp] theorem sendClock : (s.send cfg p reply).clock = s.clock := by
  unfold State.send; split <;> rfl
@[simp] theorem sendMinted : (s.send cfg p reply).minted = s.minted + 1 := by
  unfold State.send; split <;> rfl

theorem sendRan (ran : reply.ran = true) : s.send cfg p reply = {s with
    keys := effect cfg s.clock s.minted s.keys p
    minted := s.minted + 1
    started := s.started ++ p.starts s.clock
    ended := s.ended ++ p.ends
    issued := s.issued ++ p.issues s.clock s.minted} := if_pos ran

theorem sendNot (not : reply.ran = false) : s.send cfg p reply = {s with minted := s.minted + 1} :=
  if_neg (by simp only [not,Bool.false_eq_true,not_false_eq_true])

@[simp] theorem gotoKeys : (s.goto c call p).keys = s.keys := rfl
@[simp] theorem gotoClock : (s.goto c call p).clock = s.clock := rfl
@[simp] theorem gotoMinted : (s.goto c call p).minted = s.minted := rfl
@[simp] theorem gotoStarted : (s.goto c call p).started = s.started := rfl
@[simp] theorem gotoIssued : (s.goto c call p).issued = s.issued := rfl

end Send

inductive CallAfter (cfg : Config) (s : State) (a : Action) (c : Nat) (now : Call) : Prop where
  | same (found : s.calls[c]? = some now) (idle : ∀ reply, a ≠ .command c reply)
  | began (op : Op) (what : a = .call op) (last : c = s.calls.length)
      (new : now = ⟨op,aliveNow s,first cfg s op⟩)
  | moved (call : Call) (p : Point) (found : s.calls[c]? = some call)
      (goes : Leaves cfg s c call a p) (new : now = {call with point := p})

theorem gotoCalls {u : State} {c j call p now} (found : s.calls[c]? = some call)
    (calls : u.calls = s.calls) (goes : Leaves cfg s c call a p)
    (only : ∀ j reply, a = .command j reply → j = c)
    (after : (u.goto c call p).calls[j]? = some now) : CallAfter cfg s a j now := by
  simp only [State.goto,calls,List.getElem?_set] at after
  split at after
  · rename_i same
    subst same
    split at after <;> try contradiction
    exact .moved call p found goes (Option.some.inj after).symm
  · rename_i other
    exact .same after (fun reply what => other (only j reply what).symm)

theorem callAfter {c now} (does : Does cfg s a t) (after : t.calls[c]? = some now) :
    CallAfter cfg s a c now := by
  cases does with
  | tick d => exact .same after (fun _ => Action.noConfusion)
  | call op =>
    rw [List.getElem?_append] at after
    split at after
    · exact .same after (fun _ => Action.noConfusion)
    · rename_i past
      rw [List.getElem?_singleton] at after
      split at after <;> try contradiction
      rename_i zero
      exact .began op rfl (by omega) (Option.some.inj after).symm
  | command found goes =>
    exact gotoCalls found sendCalls (.command (nextEdge goes))
      (fun _ _ what => (Action.command.inj what).1.symm) after
  | @listed c' call who reason sids found here all =>
    have only : ∀ j reply, Action.listed c' sids = .command j reply → j = c' :=
      fun _ _ => Action.noConfusion
    cases sids with
    | nil => exact gotoCalls found rfl (.noneListed here (List.nil_perm.mp all)) only after
    | cons sid rest => exact gotoCalls found rfl (.listed here all) only after
  | crash found running =>
    exact gotoCalls found rfl (.crash running) (fun _ _ => Action.noConfusion) after

theorem commandMoves {c reply} (does : Does cfg s (.command c reply) t) :
    ∃ call p, s.calls[c]? = some call ∧ Edge cfg s call.op reply call.point p ∧
      t.calls = s.calls.set c {call with point := p} := by
  cases does with
  | @command _ call _ p found goes =>
    exact ⟨call,p,found,nextEdge goes,by simp only [State.goto,sendCalls]⟩

theorem clockAfter (does : Does cfg s a t) : s.clock ≤ t.clock := by
  cases does with
  | tick d => simp only; omega
  | call op => exact Int.le_refl _
  | command found goes => simp only [gotoClock,sendClock]; exact Int.le_refl _
  | listed found here all => exact Int.le_refl _
  | crash found running => exact Int.le_refl _

theorem mintedAfter (does : Does cfg s a t) : s.minted ≤ t.minted := by
  cases does with
  | tick d => exact Nat.le_refl _
  | call op => exact Nat.le_succ _
  | command found goes => simp only [gotoMinted,sendMinted]; exact Nat.le_succ _
  | listed found here all => exact Nat.le_refl _
  | crash found running => exact Nat.le_refl _

theorem callsGrow (does : Does cfg s a t) : s.calls.length ≤ t.calls.length := by
  cases does with
  | tick d => exact Nat.le_refl _
  | call op => simp only [List.length_append]; exact Nat.le_add_right _ _
  | command found goes => simp only [State.goto,sendCalls,List.length_set]; exact Nat.le_refl _
  | listed found here all => simp only [State.goto,List.length_set]; exact Nat.le_refl _
  | crash found running => simp only [State.goto,List.length_set]; exact Nat.le_refl _

inductive Wrote (cfg : Config) (s : State) (a : Action) (t : State) : Prop where
  | nothing (keys : t.keys = s.keys) (started : t.started = s.started) (ended : t.ended = s.ended)
      (issued : t.issued = s.issued)
  | command (c : Nat) (reply : Reply) (call : Call) (p : Point) (what : a = .command c reply)
      (ran : reply.ran = true) (found : s.calls[c]? = some call)
      (edge : Edge cfg s call.op reply call.point p)
      (clock : t.clock = s.clock) (minted : t.minted = s.minted + 1)
      (keys : t.keys = effect cfg s.clock s.minted s.keys call.point)
      (started : t.started = s.started ++ call.point.starts s.clock)
      (ended : t.ended = s.ended ++ call.point.ends)
      (issued : t.issued = s.issued ++ call.point.issues s.clock s.minted)

theorem wrote (does : Does cfg s a t) : Wrote cfg s a t := by
  cases does with
  | tick d => exact .nothing rfl rfl rfl rfl
  | call op => exact .nothing rfl rfl rfl rfl
  | @command c call reply p found goes =>
    cases ran : reply.ran with
    | true =>
      rw [sendRan ran]
      exact .command c reply call p rfl ran found (nextEdge goes) rfl rfl rfl rfl rfl rfl
    | false =>
      rw [sendNot ran]
      exact .nothing rfl rfl rfl rfl
  | listed found here all => exact .nothing rfl rfl rfl rfl
  | crash found running => exact .nothing rfl rfl rfl rfl

def Stands (s : State) (c : Nat) (op : Op) (p : Point) : Prop :=
  ∃ before, s.calls[c]? = some ⟨op,before,p⟩

theorem standsOne {op : Op} {p q : Point} {c : Nat} (left : Stands s c op p) (right : Stands s c op q) : p = q := by
  obtain ⟨_,one⟩ := left
  obtain ⟨_,two⟩ := right
  exact (Call.mk.inj (Option.some.inj (one.symm.trans two))).2.2

theorem callCons {op : Op} {u : State} (one : step cfg s (.call op) = some u) :
    Stands u s.calls.length op (first cfg s op) ∧ u.clock = s.clock ∧ u.minted = s.minted + 1 ∧
      u.keys = s.keys ∧ u.issued = s.issued := by
  cases Option.some.inj one
  exact ⟨⟨aliveNow s,List.getElem?_concat_length⟩,rfl,rfl,rfl,rfl⟩

theorem commandCons {op : Op} {p : Point} {c : Nat} {reply : Reply} {u : State} (here : Stands s c op p)
    (one : step cfg s (.command c reply) = some u) :
    ∃ q, next cfg s op reply p = some q ∧ Stands u c op q ∧ u.clock = s.clock ∧ u.minted = s.minted + 1 ∧
      u.keys = if reply.ran then effect cfg s.clock s.minted s.keys p else s.keys := by
  obtain ⟨before,found⟩ := here
  simp only [step,bind,found,Option.bind_some,Option.bind_eq_some_iff,Option.some.injEq] at one
  obtain ⟨q,goes,rfl⟩ := one
  have short := (List.getElem?_eq_some_iff.mp found).1
  refine ⟨q,goes,⟨before,?_⟩,?_,?_,?_⟩
  · simp only [State.goto,sendCalls,List.getElem?_set_self short]
  · simp only [gotoClock,sendClock]
  · simp only [gotoMinted,sendMinted]
  · cases ran : reply.ran with
    | true => rw [sendRan ran]; rfl
    | false => rw [sendNot ran]; rfl

theorem advance {op : Op} {p q : Point} {c : Nat} (here : Stands s c op p)
    (goes : next cfg s op .ok p = some q) :
    ∃ t, step cfg s (.command c .ok) = some t ∧ Stands t c op q ∧ t.clock = s.clock ∧
      t.keys = effect cfg s.clock s.minted s.keys p ∧ t.started = s.started ++ p.starts s.clock ∧
      t.calls.length = s.calls.length := by
  obtain ⟨before,found⟩ := here
  refine ⟨(s.send cfg p .ok).goto c ⟨op,before,p⟩ q,?_,⟨before,?_⟩,?_,?_,?_,?_⟩
  · simp only [step,bind,found,Option.bind_some,goes]
  · have short := (List.getElem?_eq_some_iff.mp found).1
    simp only [State.goto,sendCalls,List.getElem?_set_self short]
  · simp only [gotoClock,sendClock]
  · rw [sendRan rfl]; rfl
  · rw [sendRan rfl]; rfl
  · simp only [State.goto,sendCalls,List.length_set]

theorem opsKept (does : Does cfg s a t) : ∀ call ∈ s.calls, ∃ now ∈ t.calls, now.op = call.op := by
  have moved : ∀ {c old p} {u : State}, s.calls[c]? = some old → u.calls = s.calls →
      ∀ call ∈ s.calls, ∃ now ∈ (u.goto c old p).calls, now.op = call.op := by
    intro c old p u found same call mem
    obtain ⟨j,there⟩ := List.getElem?_of_mem mem
    by_cases here : c = j
    · subst here
      cases Option.some.inj (found.symm.trans there)
      have short := (List.getElem?_eq_some_iff.mp found).1
      refine ⟨{old with point := p},List.mem_of_getElem? (i := c) ?_,rfl⟩
      simp only [State.goto,same,List.getElem?_set_self short]
    · refine ⟨call,List.mem_of_getElem? (i := j) ?_,rfl⟩
      simp only [State.goto,same,List.getElem?_set_ne here,there]
  cases does with
  | tick d => exact fun call mem => ⟨call,mem,rfl⟩
  | call op => exact fun call mem => ⟨call,List.mem_append_left _ mem,rfl⟩
  | command found goes => exact moved found sendCalls
  | listed found here all => exact moved found rfl
  | crash found running => exact moved found rfl

def Point.retires (token : Token) : Point → Prop
  | .delRevoked u _ | .rotate u _ | .delLogout u _ => u = token
  | _ => False

def Point.drops : Point → Option (Principal × Sid)
  | .dropPrevious who _ old => some (who,old)
  | .dropLogout _ _ rec => some (rec.who,rec.sid)
  | _ => none

section Writes
variable {now : Int} {n : Nat} {k : Keys} {p : Point} {token : Token} {sid : Sid}

theorem refreshWritten :
    (effect cfg now n k p).refresh token = k.refresh token ∨
    (p.retires token ∧ (effect cfg now n k p).refresh token = none) ∨
    ∃ rec before, p = .storeRefresh rec before ∧ token = n ∧ (effect cfg now n k p).refresh token =
      some ⟨rec,setLapse now cfg.refreshLife ((lookup k.refresh now token).bind Entry.lapses)⟩ := by
  cases p with
  | storeRefresh rec before =>
    by_cases same : token = n
    · subst same; exact .inr (.inr ⟨rec,before,rfl,rfl,setSame⟩)
    · exact .inl (setOther same)
  | delRevoked u | rotate u | delLogout u =>
    by_cases same : token = u
    · subst same; exact .inr (.inl ⟨rfl,delSame⟩)
    · exact .inl (delOther same)
  | _ => exact .inl rfl

theorem usedWritten :
    (effect cfg now n k p).used token = k.used token ∨
    ∃ rec, p = .rotate token rec ∧ (effect cfg now n k p).used token =
      some ⟨rec,setLapse now cfg.refreshLife ((lookup k.used now token).bind Entry.lapses)⟩ := by
  cases p with
  | rotate u rec =>
    by_cases same : token = u
    · subst same; exact .inr ⟨rec,rfl,setSame⟩
    · exact .inl (setOther same)
  | _ => exact .inl rfl

theorem aliveWritten :
    (effect cfg now n k p).sessionAlive sid = k.sessionAlive sid ∨
    (sid ∈ p.ends ∧ (effect cfg now n k p).sessionAlive sid = none) ∨
    ∃ who, p = .startSession who sid ∧ (effect cfg now n k p).sessionAlive sid =
      some ⟨who.uid,setLapse now cfg.refreshLife ((lookup k.sessionAlive now sid).bind Entry.lapses)⟩ := by
  cases p with
  | startSession who x =>
    by_cases same : sid = x
    · subst same; exact .inr (.inr ⟨who,rfl,setSame⟩)
    · exact .inl (setOther same)
  | endPrevious who new x | endListed who reason listed x rest =>
    by_cases same : sid = x
    · subst same; exact .inr (.inl ⟨List.mem_singleton_self sid,delSame⟩)
    · exact .inl (delOther same)
  | endLogout token access rec =>
    by_cases same : sid = rec.sid
    · subst same; exact .inr (.inl ⟨List.mem_singleton_self _,delSame⟩)
    · exact .inl (delOther same)
  | _ => exact .inl rfl

theorem setWritten {who : Principal} :
    (effect cfg now n k p).sessionSet who = k.sessionSet who ∨
    (∃ sid, p = .startSession who sid ∧ (effect cfg now n k p).sessionSet who =
      expire (sadd k.sessionSet now who sid) now who cfg.refreshLife who) ∨
    (∃ sid, p.drops = some (who,sid) ∧ (effect cfg now n k p).sessionSet who =
      srem k.sessionSet now who sid who) ∨
    ∃ listed, p = .delSessions who listed ∧ (effect cfg now n k p).sessionSet who = none := by
  cases p with
  | startSession w sid =>
    by_cases same : who = w
    · subst same; exact .inr (.inl ⟨sid,rfl,rfl⟩)
    · exact .inl ((expireOther same).trans (saddOther same))
  | dropPrevious w new old =>
    by_cases same : who = w
    · subst same; exact .inr (.inr (.inl ⟨old,rfl,rfl⟩))
    · exact .inl (sremOther same)
  | dropLogout token access rec =>
    by_cases same : who = rec.who
    · subst same; exact .inr (.inr (.inl ⟨rec.sid,rfl,rfl⟩))
    · exact .inl (sremOther same)
  | delSessions w listed =>
    by_cases same : who = w
    · subst same; exact .inr (.inr (.inr ⟨listed,rfl,delSame⟩))
    · exact .inl (delOther same)
  | _ => exact .inl rfl

theorem sessionWritten {who : Principal} {e : Entry Sid}
    (present : (effect cfg now n k p).session who = some e) :
    k.session who = some e ∨ ∃ w, p = .startSession w e.value := by
  cases p with
  | startSession w sid =>
    by_cases same : who = w
    · subst same
      simp only [effect,startSession,setSame,Option.some.injEq] at present
      exact .inr ⟨who,by rw [← present]⟩
    · exact .inl (by simpa only [effect,startSession,setOther same] using present)
  | delSessions w listed | delCurrent _ _ w => exact .inl (delKeeps present).2
  | _ => exact .inl present

theorem endsAlive (ends : sid ∈ p.ends) : (effect cfg now n k p).sessionAlive sid = none := by
  cases p <;> simp only [Point.ends,List.mem_singleton,List.not_mem_nil] at ends <;> subst ends <;>
    exact delSame

end Writes

def Op.revokes (op : Op) (who : Principal) (reason : String) : Prop :=
  op = .revokeAll who reason ∨ ∃ token, op = .refresh token

def Result.fits : Op → Result → Prop
  | .login _,r | .refresh _,r => r ≠ .done
  | .logout _ _,r | .revokeAll _ _,r => ∀ tokens, r ≠ .tokens tokens

def Point.fits (op : Op) : Point → Prop
  | .getSession who _ | .endPrevious who _ _ | .dropPrevious who _ _ | .startSession who _ =>
    op = .login who
  | .storeRefresh rec _ => op = .login rec.who ∨ ∃ token, op = .refresh token
  | .getRefresh token | .getUsed token | .existsAlive token _ | .delRevoked token _
  | .rotate token _ => op = .refresh token
  | .getEnded _ => ∃ token, op = .refresh token
  | .listSessions who reason | .endListed who reason _ _ _ => op.revokes who reason
  | .delSessions who _ => ∃ reason, op.revokes who reason
  | .findLogout token access | .endLogout token access _ | .getCurrent token access _
  | .delCurrent token access _ | .dropLogout token access _ | .delLogout token access =>
    op = .logout token access
  | .blacklist _ _ => ∃ token access, op = .logout token access
  | .returned _ r => r.fits op
  | .crashed => True

section Fits
variable {op : Op} {p q : Point} {reply : Reply} {who : Principal} {reason : String}

theorem errorFits {now : Int} {e : Err} : (Point.returned now (.error e)).fits op := by
  cases op <;> simp only [Point.fits,Result.fits,ne_eq,reduceCtorEq,not_false_eq_true,implies_true]

theorem firstFits : (first cfg s op).fits op := by
  cases op with
  | login who => simp only [first]; split <;> rfl
  | refresh token => rfl
  | logout token access => rfl
  | revokeAll who reason => exact .inl rfl

theorem edgeFits (edge : Edge cfg s op reply p q) (fits : p.fits op) : q.fits op := by
  cases edge with
  | oldSession | noSession | endedPrevious | droppedPrevious => exact fits
  | started => exact .inl fits
  | stored => rcases fits with rfl | ⟨token,rfl⟩ <;> exact Result.noConfusion
  | current | gone | alive | dead => exact fits
  | @replay token | @rotated token => exact .inr ⟨token,fits⟩
  | @dropped _ token => exact ⟨token,fits⟩
  | @unlisted _ _ reason | @endedLast _ _ reason => exact ⟨reason,fits⟩
  | endedOne => exact fits
  | replayCut | replayEnds => exact errorFits
  | revokedAll own =>
    obtain ⟨reason,rfl | ⟨token,replay⟩⟩ := fits
    · exact fun _ => Result.noConfusion
    · exact absurd replay (own token)
  | loggedIn | endedLogout | isCurrent | notCurrent | delCurrent | droppedLogout => exact fits
  | @blacklists _ _ token access _ _ last => rcases last with rfl | rfl <;> exact ⟨token,access,fits⟩
  | loggedOut last =>
    rcases last with rfl | rfl <;> subst fits <;> exact fun _ => Result.noConfusion
  | blacklisted => obtain ⟨token,access,rfl⟩ := fits; exact fun _ => Result.noConfusion
  | refused => exact errorFits

theorem leavesFits {c call} (goes : Leaves cfg s c call a p) (fits : call.point.fits call.op) :
    p.fits call.op := by
  cases goes with
  | command edge => exact edgeFits edge fits
  | listed here all =>
    rw [here] at fits
    exact fits
  | @noneListed who reason here all =>
    rw [here] at fits
    exact ⟨reason,fits⟩
  | crash running => trivial

theorem fitsAfter {c : Nat} {now : Call} (fits : ∀ call ∈ s.calls, call.point.fits call.op) (does : Does cfg s a t)
    (found : t.calls[c]? = some now) : now.point.fits now.op := by
  cases callAfter does found with
  | same found idle => exact fits now (List.mem_of_getElem? found)
  | began op what last new => rw [new]; exact firstFits
  | moved call p found goes new =>
    have moved := leavesFits goes (fits call (List.mem_of_getElem? found))
    rw [new]
    exact moved

theorem fitsStep (fits : ∀ call ∈ s.calls, call.point.fits call.op) (does : Does cfg s a t) :
    ∀ call ∈ t.calls, call.point.fits call.op := by
  intro now mem
  obtain ⟨c,found⟩ := List.getElem?_of_mem mem
  exact fitsAfter fits does found

end Fits

end DevkitCommon.Authx
