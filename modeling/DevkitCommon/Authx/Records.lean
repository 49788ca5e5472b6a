import DevkitCommon.Authx.Commands
import DevkitCommon.Lib.Table

/-! What the keys owe to the calls that wrote them: every sid and token is minted once,
a session-alive key belongs to a session some Login started, and whoever has read a
refresh key has the record it was issued with. -/
namespace DevkitCommon.Authx
open Machine Redis

def Point.starting : Point → Option Sid
  | .getSession _ sid | .endPrevious _ sid _ | .dropPrevious _ sid _ | .startSession _ sid => some sid
  | _ => none

def Point.reads : Point → Option (Token × RefreshRecord)
  | .existsAlive token rec | .rotate token rec => some (token,rec)
  | _ => none

def State.sids (s : State) : List Sid := s.started.map Session.sid

def State.owns (s : State) (token : Token) (rec : RefreshRecord) : Prop :=
  ∃ y ∈ s.issued, y.token = token ∧ y.record = rec

def State.knows (s : State) (rec : RefreshRecord) : Prop :=
  ∃ x ∈ s.started, x.sid = rec.sid ∧ x.who = rec.who

structure Minted (s : State) : Prop where
  refresh : ∀ token, s.minted ≤ token → s.keys.refresh token = none
  issued : ∀ y ∈ s.issued, y.token < s.minted
  tokens : Table.Keyed Issue.token s.issued
  started : ∀ sid ∈ s.sids, sid < s.minted
  sids : s.sids.Nodup
  alive : ∀ sid, s.keys.sessionAlive sid ≠ none → sid ∈ s.sids
  pending : ∀ (c : Nat) (call : Call) (sid : Sid), s.calls[c]? = some call → call.point.starting = some sid →
    sid < s.minted ∧ sid ∉ s.sids
  apart : ∀ (i j : Nat) (x y : Call) (sid : Sid), s.calls[i]? = some x → s.calls[j]? = some y →
    x.point.starting = some sid → y.point.starting = some sid → i = j

structure Recorded (s : State) : Prop where
  refresh : ∀ token e, s.keys.refresh token = some e → s.owns token e.value
  used : ∀ token e, s.keys.used token = some e → s.owns token e.value
  reads : ∀ call ∈ s.calls, ∀ token rec, call.point.reads = some (token,rec) → s.owns token rec
  storing : ∀ call ∈ s.calls, ∀ rec now, call.point = .storeRefresh rec now → s.knows rec
  issued : ∀ y ∈ s.issued, s.knows y.record

variable {cfg : Config} {s t : State} {a : Action} {op : Op} {p q : Point} {reply : Reply}
  {token : Token} {sid : Sid} {c : Nat} {call now : Call} {rec : RefreshRecord}

theorem startsExact {time : Int} {x : Session} (mem : x ∈ p.starts time) :
    ∃ who sid, p = .startSession who sid ∧ x = ⟨sid,who,time⟩ := by
  cases p <;> simp only [Point.starts,List.mem_singleton,List.not_mem_nil] at mem
  exact ⟨_,_,rfl,mem⟩

theorem issuesExact {time : Int} {n : Nat} {y : Issue} (mem : y ∈ p.issues time n) :
    ∃ rec before, p = .storeRefresh rec before ∧ y = ⟨n,rec,time⟩ := by
  cases p <;> simp only [Point.issues,List.mem_singleton,List.not_mem_nil] at mem
  exact ⟨_,_,rfl,mem⟩

theorem startingEdge (edge : Edge cfg s op reply p q) (starting : q.starting = some sid) :
    p.starting = some sid ∧ ∀ who, p ≠ .startSession who sid := by
  cases edge with
  | oldSession | noSession | endedPrevious | droppedPrevious =>
    exact ⟨starting,fun _ => Point.noConfusion⟩
  | _ => simp only [Point.starting,reduceCtorEq] at starting

theorem readsEdge (edge : Edge cfg s op reply p q) (reads : q.reads = some (token,rec)) :
    p.reads = some (token,rec) ∨ ∃ e, s.keys.refresh token = some e ∧ e.value = rec := by
  cases edge with
  | current found =>
    obtain ⟨rfl,rfl⟩ := Prod.mk.inj (Option.some.inj reads)
    obtain ⟨e,raw,-,same⟩ := getExact.mp found
    exact .inr ⟨e,raw,same⟩
  | alive => exact .inl reads
  | _ => simp only [Point.reads,reduceCtorEq] at reads

theorem storingEdge {time : Int} (edge : Edge cfg s op reply p q) (storing : q = .storeRefresh rec time) :
    reply = .ok ∧ (p = .startSession rec.who rec.sid ∨ ∃ token, p.reads = some (token,rec)) := by
  cases edge with
  | started => cases storing; exact ⟨rfl,.inl rfl⟩
  | @rotated token => cases storing; exact ⟨rfl,.inr ⟨token,rfl⟩⟩
  | _ => cases storing

theorem startingAfter (does : Does cfg s a t) (found : t.calls[c]? = some now)
    (starting : now.point.starting = some sid) :
    (∃ call, s.calls[c]? = some call ∧ call.point.starting = some sid ∧
      ∀ reply who, a = .command c reply → call.point ≠ .startSession who sid) ∨
    c = s.calls.length ∧ sid = s.minted ∧ ∃ op, a = .call op := by
  cases callAfter does found with
  | same before idle => exact .inl ⟨now,before,starting,fun reply _ what => absurd what (idle reply)⟩
  | began op what last new =>
    subst new
    refine .inr ⟨last,?_,op,what⟩
    cases op with
    | login who =>
      simp only [first] at starting
      split at starting <;> exact (Option.some.inj starting).symm
    | _ => simp only [first,Point.starting,reduceCtorEq] at starting
  | moved call p before goes new =>
    subst new
    cases goes with
    | command edge =>
      obtain ⟨was,not⟩ := startingEdge edge starting
      exact .inl ⟨call,before,was,fun _ who _ => not who⟩
    | _ => simp only [Point.starting,reduceCtorEq] at starting

theorem readsAfter (does : Does cfg s a t) (found : t.calls[c]? = some now)
    (reads : now.point.reads = some (token,rec)) :
    (∃ call, s.calls[c]? = some call ∧ call.point.reads = some (token,rec)) ∨
      ∃ e, s.keys.refresh token = some e ∧ e.value = rec := by
  cases callAfter does found with
  | same before idle => exact .inl ⟨now,before,reads⟩
  | began op what last new =>
    subst new
    cases op <;> simp only [first] at reads
    case login => split at reads <;> simp only [Point.reads,reduceCtorEq] at reads
    all_goals simp only [Point.reads,reduceCtorEq] at reads
  | moved call p before goes new =>
    subst new
    cases goes with
    | command edge => exact (readsEdge edge reads).imp (fun was => ⟨call,before,was⟩) id
    | _ => simp only [Point.reads,reduceCtorEq] at reads

theorem callMints (does : Does cfg s (.call op) t) :
    t.minted = s.minted + 1 ∧ t.started = s.started := by
  cases does with
  | call op => exact ⟨rfl,rfl⟩

theorem sidsAfter (does : Does cfg s a t) : t.sids = s.sids ∨ ∃ c reply call who sid,
    a = .command c reply ∧ s.calls[c]? = some call ∧ call.point = .startSession who sid ∧
      t.sids = s.sids ++ [sid] := by
  cases wrote does with
  | nothing keys started => exact .inl (by rw [State.sids,started]; rfl)
  | command c reply call p what ran found edge clock minted keys started =>
    cases start : call.point.starts s.clock with
    | nil => exact .inl (by rw [State.sids,started,start,List.append_nil]; rfl)
    | cons x rest =>
      obtain ⟨who,sid,here,rfl⟩ := startsExact (start ▸ List.mem_cons_self)
      refine .inr ⟨c,reply,call,who,sid,what,found,here,?_⟩
      rw [State.sids,started,here,List.map_append]
      rfl

theorem refreshAfter (does : Does cfg s a t) (present : t.keys.refresh token ≠ none) :
    s.keys.refresh token ≠ none ∨ token = s.minted ∧ t.minted = s.minted + 1 := by
  cases wrote does with
  | nothing keys => rw [keys] at present; exact .inl present
  | command c reply call p what ran found edge clock minted keys =>
    rw [keys] at present
    rcases refreshWritten (p := call.point) with same | ⟨-,gone⟩ | ⟨rec,before,-,fresh,-⟩
    · rw [same] at present
      exact .inl present
    · exact absurd gone present
    · exact .inr ⟨fresh,minted⟩

theorem issuedAfter (does : Does cfg s a t) : t.issued = s.issued ∨ ∃ c reply call rec before,
    a = .command c reply ∧ s.calls[c]? = some call ∧ call.point = .storeRefresh rec before ∧
      t.minted = s.minted + 1 ∧ t.issued = s.issued ++ [⟨s.minted,rec,s.clock⟩] := by
  cases wrote does with
  | nothing keys started ended issued => exact .inl issued
  | command c reply call p what ran found edge clock minted keys started ended issued =>
    cases issue : call.point.issues s.clock s.minted with
    | nil => exact .inl (by rw [issued,issue,List.append_nil])
    | cons y rest =>
      obtain ⟨rec,before,here,rfl⟩ := issuesExact (issue ▸ List.mem_cons_self)
      refine .inr ⟨c,reply,call,rec,before,what,found,here,minted,?_⟩
      rw [issued,here]
      rfl

theorem aliveAfter (does : Does cfg s a t) (present : t.keys.sessionAlive sid ≠ none) :
    s.keys.sessionAlive sid ≠ none ∨ sid ∈ t.sids := by
  cases wrote does with
  | nothing keys => rw [keys] at present; exact .inl present
  | command c reply call p what ran found edge clock minted keys started =>
    rw [keys] at present
    rcases aliveWritten (p := call.point) with same | ⟨-,gone⟩ | ⟨who,here,-⟩
    · rw [same] at present
      exact .inl present
    · exact absurd gone present
    · refine .inr ?_
      rw [State.sids,started,here,List.map_append]
      exact List.mem_append_right _ (List.mem_singleton_self sid)

theorem apartAfter (inv : Minted s) (does : Does cfg s a t) {i j : Nat} {x y : Call} (hx : t.calls[i]? = some x)
    (hy : t.calls[j]? = some y) (sx : x.point.starting = some sid) (sy : y.point.starting = some sid) : i = j := by
  rcases startingAfter does hx sx with ⟨u,hu,su,-⟩ | ⟨li,ni,-⟩ <;>
  rcases startingAfter does hy sy with ⟨v,hv,sv,-⟩ | ⟨lj,nj,-⟩
  · exact inv.apart i j u v sid hu hv su sv
  · exact absurd (inv.pending i u sid hu su).1 (nj ▸ Nat.lt_irrefl _)
  · exact absurd (inv.pending j v sid hv sv).1 (ni ▸ Nat.lt_irrefl _)
  · exact li.trans lj.symm

theorem pendingAfter (inv : Minted s) (does : Does cfg s a t) (found : t.calls[c]? = some call)
    (starting : call.point.starting = some sid) : sid < t.minted ∧ sid ∉ t.sids := by
  rcases startingAfter does found starting with ⟨before,old,was,stays⟩ | ⟨-,rfl,op,rfl⟩
  · obtain ⟨less,absent⟩ := inv.pending c before sid old was
    refine ⟨Nat.lt_of_lt_of_le less (mintedAfter does),fun mem => ?_⟩
    rcases sidsAfter does with same | ⟨c',reply,other,who,sid',rfl,found',here,more⟩
    · exact absent (same ▸ mem)
    · rw [more] at mem
      rcases List.mem_append.mp mem with earlier | last
      · exact absent earlier
      · cases List.mem_singleton.mp last
        have same := inv.apart c c' before other sid old found' was (by rw [here]; rfl)
        subst same
        cases Option.some.inj (old.symm.trans found')
        exact stays reply who rfl here
  · obtain ⟨more,same⟩ := callMints does
    rw [more,State.sids,same]
    refine ⟨Nat.lt_succ_self _,fun mem => Nat.lt_irrefl _ (inv.started _ mem)⟩

theorem unstoredAfter (inv : Minted s) (does : Does cfg s a t) (new : t.minted ≤ token) :
    t.keys.refresh token = none := by
  by_contra present
  rcases refreshAfter does present with old | ⟨rfl,more⟩
  · exact old (inv.refresh token (Nat.le_trans (mintedAfter does) new))
  · rw [more] at new
    exact Nat.not_succ_le_self _ new

theorem tokensAfter (inv : Minted s) (does : Does cfg s a t) :
    (∀ y ∈ t.issued, y.token < t.minted) ∧ Table.Keyed Issue.token t.issued := by
  have grows := mintedAfter does
  rcases issuedAfter does with same | ⟨c,reply,call,rec,before,-,-,-,more,new⟩
  · rw [same]
    exact ⟨fun y mem => Nat.lt_of_lt_of_le (inv.issued y mem) grows,inv.tokens⟩
  · rw [new]
    refine ⟨fun y mem => ?_,Table.insertKeyed inv.tokens (fun y mem => Nat.ne_of_lt (inv.issued y mem))⟩
    rcases List.mem_append.mp mem with old | last
    · exact Nat.lt_of_lt_of_le (inv.issued y old) grows
    · rw [List.mem_singleton.mp last,more]
      exact Nat.lt_succ_self _

theorem startedAt (inv : Minted s) (does : Does cfg s a t) : (∀ sid ∈ t.sids, sid < t.minted) ∧ t.sids.Nodup := by
  have grows := mintedAfter does
  rcases sidsAfter does with same | ⟨c,reply,call,who,new,-,found,here,more⟩
  · rw [same]
    exact ⟨fun sid mem => Nat.lt_of_lt_of_le (inv.started sid mem) grows,inv.sids⟩
  · obtain ⟨less,absent⟩ := inv.pending c call new found (by rw [here]; rfl)
    rw [more]
    refine ⟨fun sid mem => ?_,List.nodup_append.mpr ⟨inv.sids,List.nodup_singleton new,
      fun x mem y last same => absent (List.mem_singleton.mp last ▸ same ▸ mem)⟩⟩
    rcases List.mem_append.mp mem with old | last
    · exact Nat.lt_of_lt_of_le (inv.started sid old) grows
    · cases List.mem_singleton.mp last
      exact Nat.lt_of_lt_of_le less grows

theorem aliveStarted (inv : Minted s) (does : Does cfg s a t) (present : t.keys.sessionAlive sid ≠ none) :
    sid ∈ t.sids := by
  rcases aliveAfter does present with old | new
  · have mem := inv.alive sid old
    rcases sidsAfter does with same | ⟨c,reply,call,who,new,-,-,-,more⟩
    · exact same ▸ mem
    · rw [more]
      exact List.mem_append_left _ mem
  · exact new

theorem mintedStep (inv : Minted s) (one : step cfg s a = some t) : Minted t where
  refresh := fun _ new => unstoredAfter inv (stepDoes one) new
  issued := (tokensAfter inv (stepDoes one)).1
  tokens := (tokensAfter inv (stepDoes one)).2
  started := (startedAt inv (stepDoes one)).1
  sids := (startedAt inv (stepDoes one)).2
  alive := fun _ present => aliveStarted inv (stepDoes one) present
  pending := fun _ _ _ found starting => pendingAfter inv (stepDoes one) found starting
  apart := fun _ _ _ _ _ hx hy sx sy => apartAfter inv (stepDoes one) hx hy sx sy

theorem initMinted (clock : Int) : Minted (State.init clock) where
  refresh := fun _ _ => rfl
  issued := fun _ mem => nomatch mem
  tokens := List.nodup_nil
  started := fun _ mem => nomatch mem
  sids := List.nodup_nil
  alive := fun _ present => absurd rfl present
  pending := fun _ _ _ found => nomatch found
  apart := fun _ _ _ _ _ found => nomatch found

theorem startedKept (does : Does cfg s a t) : ∀ x ∈ s.started, x ∈ t.started := by
  cases wrote does with
  | nothing keys started => rw [started]; exact fun _ mem => mem
  | command c reply call p what ran found edge clock minted keys started =>
    rw [started]
    exact fun _ mem => List.mem_append_left _ mem

theorem issuedKept (does : Does cfg s a t) : ∀ y ∈ s.issued, y ∈ t.issued := by
  rcases issuedAfter does with same | ⟨c,reply,call,rec,before,-,-,-,-,new⟩
  · rw [same]; exact fun _ mem => mem
  · rw [new]; exact fun _ mem => List.mem_append_left _ mem

theorem ownsKept (does : Does cfg s a t) (owns : s.owns token rec) : t.owns token rec := by
  obtain ⟨y,mem,same⟩ := owns
  exact ⟨y,issuedKept does y mem,same⟩

theorem knowsKept (does : Does cfg s a t) (knows : s.knows rec) : t.knows rec := by
  obtain ⟨x,mem,same⟩ := knows
  exact ⟨x,startedKept does x mem,same⟩

theorem startedNow {reply} (does : Does cfg s (.command c reply) t) (ran : reply.ran = true)
    (found : s.calls[c]? = some call) (here : call.point = .startSession rec.who rec.sid) :
    t.knows rec := by
  cases does with
  | @command _ other _ p found' goes =>
    cases Option.some.inj (found.symm.trans found')
    refine ⟨⟨rec.sid,rec.who,s.clock⟩,?_,rfl,rfl⟩
    rw [gotoStarted,sendRan ran,here]
    exact List.mem_append_right _ (List.mem_singleton_self _)

theorem refreshOwned (inv : Recorded s) (does : Does cfg s a t) {e : Entry RefreshRecord}
    (present : t.keys.refresh token = some e) : t.owns token e.value := by
  cases wrote does with
  | nothing keys => rw [keys] at present; exact ownsKept does (inv.refresh token e present)
  | command c reply call p what ran found edge clock minted keys started ended issued =>
    rw [keys] at present
    rcases refreshWritten (p := call.point) with same | ⟨-,gone⟩ | ⟨rec,before,here,fresh,new⟩
    · rw [same] at present
      exact ownsKept does (inv.refresh token e present)
    · rw [gone] at present
      contradiction
    · rw [new] at present
      cases Option.some.inj present
      refine ⟨⟨s.minted,rec,s.clock⟩,?_,fresh.symm,rfl⟩
      rw [issued,here]
      exact List.mem_append_right _ (List.mem_singleton_self _)

theorem usedOwned (inv : Recorded s) (does : Does cfg s a t) {e : Entry RefreshRecord}
    (present : t.keys.used token = some e) : t.owns token e.value := by
  cases wrote does with
  | nothing keys => rw [keys] at present; exact ownsKept does (inv.used token e present)
  | command c reply call p what ran found edge clock minted keys =>
    rw [keys] at present
    rcases usedWritten (p := call.point) with same | ⟨rec,here,new⟩
    · rw [same] at present
      exact ownsKept does (inv.used token e present)
    · rw [new] at present
      cases Option.some.inj present
      exact ownsKept does (inv.reads call (List.mem_of_getElem? found) token rec (by rw [here]; rfl))

theorem readsOwned (inv : Recorded s) (does : Does cfg s a t) (mem : now ∈ t.calls)
    (reads : now.point.reads = some (token,rec)) : t.owns token rec := by
  obtain ⟨c,found⟩ := List.getElem?_of_mem mem
  rcases readsAfter does found reads with ⟨call,before,was⟩ | ⟨e,raw,rfl⟩
  · exact ownsKept does (inv.reads call (List.mem_of_getElem? before) token rec was)
  · exact ownsKept does (inv.refresh token e raw)

theorem storingKnown (inv : Recorded s) (does : Does cfg s a t) (mem : now ∈ t.calls) {time : Int}
    (storing : now.point = .storeRefresh rec time) : t.knows rec := by
  obtain ⟨c,found⟩ := List.getElem?_of_mem mem
  cases callAfter does found with
  | same before idle => exact knowsKept does (inv.storing now (List.mem_of_getElem? before) rec time storing)
  | began op what last new =>
    subst new
    cases op <;> simp only [first] at storing
    case login => split at storing <;> cases storing
    all_goals cases storing
  | moved call p before goes new =>
    subst new
    cases goes with
    | command edge =>
      obtain ⟨rfl,start | ⟨token,reads⟩⟩ := storingEdge edge storing
      · exact startedNow does rfl before start
      · obtain ⟨y,issued,-,rfl⟩ := inv.reads call (List.mem_of_getElem? before) token rec reads
        exact knowsKept does (inv.issued y issued)
    | _ => cases storing

theorem issuedKnown (inv : Recorded s) (does : Does cfg s a t) : ∀ y ∈ t.issued, t.knows y.record := by
  intro y mem
  rcases issuedAfter does with same | ⟨c,reply,call,rec,before,-,found,here,-,new⟩
  · exact knowsKept does (inv.issued y (same ▸ mem))
  · rw [new] at mem
    rcases List.mem_append.mp mem with old | last
    · exact knowsKept does (inv.issued y old)
    · cases List.mem_singleton.mp last
      exact knowsKept does (inv.storing call (List.mem_of_getElem? found) rec before here)

theorem recordedStep (inv : Recorded s) (one : step cfg s a = some t) : Recorded t where
  refresh := fun _ _ present => refreshOwned inv (stepDoes one) present
  used := fun _ _ present => usedOwned inv (stepDoes one) present
  reads := fun _ mem _ _ reads => readsOwned inv (stepDoes one) mem reads
  storing := fun _ mem _ _ storing => storingKnown inv (stepDoes one) mem storing
  issued := issuedKnown inv (stepDoes one)

theorem initRecorded (clock : Int) : Recorded (State.init clock) where
  refresh := fun _ _ present => nomatch present
  used := fun _ _ present => nomatch present
  reads := fun _ mem => nomatch mem
  storing := fun _ mem => nomatch mem
  issued := fun _ mem => nomatch mem

structure Sound (s : State) : Prop where
  fits : ∀ call ∈ s.calls, call.point.fits call.op
  minted : Minted s
  recorded : Recorded s

theorem soundStep (inv : Sound s) (one : step cfg s a = some t) : Sound t :=
  ⟨fitsStep inv.fits (stepDoes one),mintedStep inv.minted one,recordedStep inv.recorded one⟩

theorem initSound (clock : Int) : Sound (State.init clock) where
  fits := fun _ mem => nomatch mem
  minted := initMinted clock
  recorded := initRecorded clock

theorem soundReachable {clock : Int} (reach : Reachable (step cfg) (State.init clock) s) : Sound s :=
  reachableKeeps soundStep (initSound clock) reach

theorem ownsRecord {y : Issue} (minted : Minted s) (issued : y ∈ s.issued) (owns : s.owns y.token rec) :
    rec = y.record := by
  obtain ⟨z,mem,same,rfl⟩ := owns
  rw [Table.sameRow minted.tokens mem issued same]

end DevkitCommon.Authx
