import DevkitCommon.Authx.Records

/-! How long a chain of refreshes lasts. A refresh token gets its own RefreshTTL at each
rotation; the session-alive key gets it at Login and no Refresh sets it again. -/
namespace DevkitCommon.Authx
open Machine Redis

def Op.presents (token : Token) : Op → Bool
  | .refresh u | .logout u _ => u == token
  | _ => false

def Point.result : Point → Option Result
  | .returned _ r => some r
  | _ => none

def refreshAlone (cfg : Config) (s : State) (token : Token) : Option Result :=
  (run (step cfg) s (.call (.refresh token) :: List.replicate 4 (.command s.calls.length .ok))).bind
    (fun t => (t.calls[s.calls.length]?).bind (fun call => call.point.result))

def Accepts (cfg : Config) (s : State) (token : Token) : Prop :=
  ∃ pair, refreshAlone cfg s token = some (.tokens pair)

structure Lasting (cfg : Config) (s : State) : Prop where
  fits : ∀ call ∈ s.calls, call.point.fits call.op
  minted : Minted s
  recorded : Recorded s
  kept : ∀ y ∈ s.issued, (∀ call ∈ s.calls, call.op.presents y.token = false) →
    s.keys.refresh y.token = some ⟨y.record,setLapse y.time cfg.refreshLife none⟩
  lives : ∀ x ∈ s.started, x.sid ∉ s.ended →
    s.keys.sessionAlive x.sid = some ⟨x.who.uid,setLapse x.begun cfg.refreshLife none⟩
  past : ∀ y ∈ s.issued, y.time ≤ s.clock
  returned : ∀ call ∈ s.calls, ∀ time pair, call.point = .returned time (.tokens pair) →
    pair.refreshExpiresIn = cfg.refreshLife.tdiv second ∧ ∃ y ∈ s.issued,
      y.token = pair.refreshToken ∧ y.time = time ∧ y.record.sid = pair.accessToken.sid

variable {cfg : Config} {s t : State} {a : Action} {op : Op} {p q : Point} {reply : Reply}
  {token : Token} {sid : Sid} {c : Nat} {call now : Call} {rec : RefreshRecord}

theorem retiresPresents (retires : p.retires token) (fits : p.fits op) : op.presents token = true := by
  cases p <;> simp only [Point.retires] at retires <;> subst retires <;> subst fits <;>
    exact beq_self_eq_true _

theorem keptStep (inv : Lasting cfg s) (does : Does cfg s a t) {y : Issue} (mem : y ∈ t.issued)
    (unused : ∀ call ∈ t.calls, call.op.presents y.token = false) :
    t.keys.refresh y.token = some ⟨y.record,setLapse y.time cfg.refreshLife none⟩ := by
  have before : ∀ call ∈ s.calls, call.op.presents y.token = false := by
    intro call old
    obtain ⟨now,mem,same⟩ := opsKept does call old
    rw [← same]
    exact unused now mem
  cases wrote does with
  | nothing keys started ended issued =>
    rw [keys]
    exact inv.kept y (issued ▸ mem) before
  | command c reply call p what ran found edge clock minted keys started ended issued =>
    rw [issued] at mem
    rcases List.mem_append.mp mem with old | new
    · rw [keys]
      rcases refreshWritten (p := call.point) with same | ⟨retires,-⟩ | ⟨rec,before,-,fresh,-⟩
      · rw [same]
        exact inv.kept y old before
      · have free := before call (List.mem_of_getElem? found)
        rw [retiresPresents retires (inv.fits call (List.mem_of_getElem? found))] at free
        contradiction
      · exact absurd (inv.minted.issued y old) (fresh ▸ Nat.lt_irrefl _)
    · obtain ⟨rec,before,here,rfl⟩ := issuesExact new
      have unset : lookup s.keys.refresh s.clock s.minted = none := by
        simp only [lookup,inv.minted.refresh s.minted (Nat.le_refl _),Option.filter_none]
      rw [keys,here]
      simp only [effect,setSame,unset,Option.bind_none]

theorem openStep (inv : Lasting cfg s) (does : Does cfg s a t) {x : Session} (mem : x ∈ t.started)
    (stays : x.sid ∉ t.ended) :
    t.keys.sessionAlive x.sid = some ⟨x.who.uid,setLapse x.begun cfg.refreshLife none⟩ := by
  cases wrote does with
  | nothing keys started ended =>
    rw [keys]
    exact inv.lives x (started ▸ mem) (ended ▸ stays)
  | command c reply call p what ran found edge clock minted keys started ended =>
    rw [ended] at stays
    have before := fun old => stays (List.mem_append_left _ old)
    rw [started] at mem
    rcases List.mem_append.mp mem with old | new
    · rw [keys]
      rcases aliveWritten (p := call.point) with same | ⟨ends,-⟩ | ⟨who,here,-⟩
      · rw [same]
        exact inv.lives x old before
      · exact absurd (List.mem_append_right _ ends) stays
      · have absent := (inv.minted.pending c call x.sid found (by rw [here]; rfl)).2
        exact absurd (List.mem_map_of_mem old) absent
    · obtain ⟨who,sid,here,rfl⟩ := startsExact new
      have absent := (inv.minted.pending c call sid found (by rw [here]; rfl)).2
      have unset : lookup s.keys.sessionAlive s.clock sid = none := by
        have raw : s.keys.sessionAlive sid = none := by
          by_contra present
          exact absent (inv.minted.alive sid present)
        simp only [lookup,raw,Option.filter_none]
      rw [keys,here]
      simp only [effect,startSession,setSame,unset,Option.bind_none]

theorem returnedEdge {time : Int} {pair : Tokens} (edge : Edge cfg s op reply p q)
    (returned : q = .returned time (.tokens pair)) : reply = .ok ∧ time = s.clock ∧
      ∃ rec before, p = .storeRefresh rec before ∧ pair = issue cfg before s.minted rec := by
  cases edge with
  | @stored rec before => cases returned; exact ⟨rfl,rfl,rec,before,rfl,rfl⟩
  | _ => cases returned

theorem issuedNow {before : Int} (does : Does cfg s (.command c .ok) t) (found : s.calls[c]? = some call)
    (here : call.point = .storeRefresh rec before) : ⟨s.minted,rec,s.clock⟩ ∈ t.issued := by
  cases does with
  | @command _ other _ p found' goes =>
    cases Option.some.inj (found.symm.trans found')
    rw [gotoIssued,sendRan rfl,here]
    exact List.mem_append_right _ (List.mem_singleton_self _)

theorem returnedStep (inv : Lasting cfg s) (does : Does cfg s a t) (mem : now ∈ t.calls) {time pair}
    (returned : now.point = .returned time (.tokens pair)) :
    pair.refreshExpiresIn = cfg.refreshLife.tdiv second ∧ ∃ y ∈ t.issued,
      y.token = pair.refreshToken ∧ y.time = time ∧ y.record.sid = pair.accessToken.sid := by
  obtain ⟨c,found⟩ := List.getElem?_of_mem mem
  cases callAfter does found with
  | same before idle =>
    obtain ⟨expires,y,issued,facts⟩ := inv.returned now (List.mem_of_getElem? before) time pair returned
    exact ⟨expires,y,issuedKept does y issued,facts⟩
  | began op what last new =>
    subst new
    cases op <;> simp only [first] at returned
    case login => split at returned <;> cases returned
    all_goals cases returned
  | moved call p before goes new =>
    subst new
    cases goes with
    | command edge =>
      obtain ⟨rfl,rfl,rec,when,here,rfl⟩ := returnedEdge edge returned
      exact ⟨rfl,_,issuedNow does before here,rfl,rfl,rfl⟩
    | _ => cases returned

theorem pastStep (inv : Lasting cfg s) (does : Does cfg s a t) : ∀ y ∈ t.issued, y.time ≤ t.clock := by
  have grows := clockAfter does
  intro y mem
  rcases issuedAfter does with same | ⟨c,reply,call,rec,before,-,-,-,-,new⟩
  · exact Int.le_trans (inv.past y (same ▸ mem)) grows
  · rw [new] at mem
    rcases List.mem_append.mp mem with old | last
    · exact Int.le_trans (inv.past y old) grows
    · rw [List.mem_singleton.mp last]
      exact grows

theorem lastingStep (inv : Lasting cfg s) (one : step cfg s a = some t) : Lasting cfg t := by
  have does := stepDoes one
  refine ⟨fitsStep inv.fits does,mintedStep inv.minted one,recordedStep inv.recorded one,?_,?_,pastStep inv does,?_⟩
  · exact fun y mem unused => keptStep inv does mem unused
  · exact fun x mem stays => openStep inv does mem stays
  · exact fun now mem time pair returned => returnedStep inv does mem returned

theorem initLasting (cfg : Config) (clock : Int) : Lasting cfg (State.init clock) where
  fits := fun _ mem => nomatch mem
  minted := initMinted clock
  recorded := initRecorded clock
  kept := fun _ mem => nomatch mem
  lives := fun _ mem => nomatch mem
  past := fun _ mem => nomatch mem
  returned := fun _ mem => nomatch mem

section Alone
variable {y : Issue} {x : Session}

theorem liveUntil {ν : Type} {v : ν} {time when : Int} (positive : 0 < cfg.refreshLife) :
    Entry.live when ⟨v,setLapse time cfg.refreshLife none⟩ = true ↔ when < time + cfg.refreshLasts := by
  simp only [Entry.live,setLapsePositive positive,Option.all_some,decide_eq_true_eq,Config.refreshLasts]

theorem aloneResult {u : State} {r : Result} {time : Int}
    (ok : run (step cfg) s (.call (.refresh token) :: List.replicate 4 (.command s.calls.length .ok)) = some u)
    (ends : Stands u s.calls.length (.refresh token) (.returned time r)) :
    refreshAlone cfg s token = some r := by
  obtain ⟨before,found⟩ := ends
  simp only [refreshAlone,ok,Option.bind_some,found,Point.result]

theorem fourSteps {op : Op} {b : Action} {u v w x y : State} (called : step cfg s (.call op) = some u)
    (one : step cfg u b = some v) (two : step cfg v b = some w) (three : step cfg w b = some x)
    (four : step cfg x b = some y) :
    run (step cfg) s (.call op :: List.replicate 4 b) = some y :=
  runCons.mpr ⟨u,called,runCons.mpr ⟨v,one,runCons.mpr ⟨w,two,
    runCons.mpr ⟨x,three,runCons.mpr ⟨y,four,rfl⟩⟩⟩⟩⟩

theorem refreshAloneExact (found : get s.keys.refresh s.clock token = some rec) :
    if s.alive rec.sid then ∃ pair, refreshAlone cfg s token = some (.tokens pair)
    else ∃ reason, refreshAlone cfg s token = some (.error (.sessionRevoked reason)) := by
  let c := s.calls.length
  let u : State := {s with
    calls := s.calls ++ [⟨.refresh token,aliveNow s,.getRefresh token⟩]
    minted := s.minted + 1}
  have called : step cfg s (.call (.refresh token)) = some u := rfl
  have here : Stands u c (.refresh token) (.getRefresh token) :=
    ⟨aliveNow s,by simp only [u,c,List.getElem?_concat_length]⟩
  obtain ⟨v,one,here,clock,keys,-⟩ := advance (q := .existsAlive token rec) here
    (by simp only [next,if_true,u,found])
  have same : v.alive rec.sid = s.alive rec.sid := by
    simp only [State.alive,keys,clock,effect,u]
  cases alive : s.alive rec.sid with
  | true =>
    simp only [if_true]
    obtain ⟨w,two,here,-⟩ := advance (q := .rotate token rec) here
      (by simp only [next,same,alive,and_self,if_true])
    obtain ⟨x,three,here,-⟩ := advance (q := .storeRefresh rec w.clock) here
      (by simp only [next,if_true])
    have stores : next cfg x (.refresh token) .ok (.storeRefresh rec w.clock) =
        some (.returned x.clock (.tokens (issue cfg w.clock x.minted rec))) := by
      simp only [next,if_true]
    obtain ⟨y,four,here,-⟩ := advance here stores
    exact ⟨_,aloneResult (fourSteps called one two three four) here⟩
  | false =>
    simp only [Bool.false_eq_true,if_false]
    obtain ⟨w,two,here,-⟩ := advance (q := .delRevoked token rec) here
      (by simp only [next,same,alive,Bool.false_eq_true,and_false,if_false])
    obtain ⟨x,three,here,-⟩ := advance (q := .getEnded rec) here (by simp only [next])
    obtain ⟨y,four,here,-⟩ := advance (q := .returned x.clock (.error (.sessionRevoked
      ((get x.keys.ended x.clock rec.sid).getD "")))) here (by simp only [next,if_true])
    exact ⟨_,aloneResult (fourSteps called one two three four) here⟩

theorem lifePositive {time clock : Int} (young : clock < time + 1000*cfg.refreshLife.tdiv second)
    (past : time ≤ clock) : 0 < cfg.refreshLife ∧ clock < time + cfg.refreshLasts := by
  by_cases negative : cfg.refreshLife < 0
  · have back : cfg.refreshLife.tdiv second = -(-cfg.refreshLife).tdiv second := by
      rw [Int.neg_tdiv,Int.neg_neg]
    have none : 0 ≤ (-cfg.refreshLife).tdiv second := Int.tdiv_nonneg (by omega) (by decide)
    omega
  · rw [Int.tdiv_eq_ediv_of_nonneg (by omega)] at young
    simp only [Config.refreshLasts,second,millisecond] at young ⊢
    omega

end Alone

theorem acceptedUntil (cfg : Config) (clock : Int) (as : List Action) (s : State)
    (ok : run (step cfg) (State.init clock) as = some s) (call : Call) (mem : call ∈ s.calls)
    (time : Int) (pair : Tokens) (returned : call.point = .returned time (.tokens pair))
    (unused : ∀ other ∈ s.calls, other.op.presents pair.refreshToken = false)
    (young : s.clock < time + 1000*pair.refreshExpiresIn)
    (lives : pair.accessToken.sid ∉ s.ended) :
    ∃ x ∈ s.started, x.sid = pair.accessToken.sid ∧
      (Accepts cfg s pair.refreshToken ↔ s.clock < x.begun + cfg.refreshLasts) := by
  have inv : Lasting cfg s := reachableKeeps lastingStep (initLasting cfg clock) ⟨as,ok⟩
  obtain ⟨expires,y,issued,token,rfl,sid⟩ := inv.returned call mem time pair returned
  obtain ⟨x,started,same,-⟩ := inv.recorded.issued y issued
  rw [expires] at young
  obtain ⟨positive,live⟩ := lifePositive young (inv.past y issued)
  refine ⟨x,started,same.trans sid,?_⟩
  have raw := inv.kept y issued (by rw [token]; exact unused)
  have found : get s.keys.refresh s.clock y.token = some y.record :=
    getExact.mpr ⟨_,raw,(liveUntil positive).mpr live,rfl⟩
  have key := inv.lives x started (by rw [same,sid]; exact lives)
  have alive : s.alive y.record.sid = true ↔ s.clock < x.begun + cfg.refreshLasts := by
    rw [← same,← liveUntil (v := x.who.uid) positive]
    rw [State.alive,getLive key]
  rw [← token,← alive]
  have answers : if s.alive y.record.sid then ∃ pair, refreshAlone cfg s y.token = some (.tokens pair)
      else ∃ reason, refreshAlone cfg s y.token = some (.error (.sessionRevoked reason)) :=
    refreshAloneExact found
  cases shut : s.alive y.record.sid with
  | true =>
    rw [if_pos shut] at answers
    exact ⟨fun _ => rfl,fun _ => answers⟩
  | false =>
    rw [shut,if_neg Bool.false_ne_true] at answers
    obtain ⟨reason,revoked⟩ := answers
    refine ⟨fun ⟨pair,accepted⟩ => ?_,fun impossible => absurd impossible Bool.false_ne_true⟩
    rw [revoked] at accepted
    cases accepted

def minute : Config := ⟨"",0,60*second,none⟩
def someone : Principal := ⟨"member",42⟩

def refreshedOnce : List Action :=
  [.call (.login someone),.command 0 .ok,.command 0 .ok,.command 0 .ok,.tick 50000,
    .call (.refresh 3),.command 1 .ok,.command 1 .ok,.command 1 .ok,.command 1 .ok]

def newPair : Tokens := issue minute 50000 8 ⟨someone,0⟩
def afterRefresh : List Call :=
  [⟨.login someone,[],.returned 0 (.tokens (issue minute 0 3 ⟨someone,0⟩))⟩,
    ⟨.refresh 3,[0],.returned 50000 (.tokens newPair)⟩]

theorem acceptedEarly : ∃ s, run (step minute) (State.init 0) (refreshedOnce ++ [.tick 5000]) = some s ∧
    Accepts minute s 8 := by
  have facts : (run (step minute) (State.init 0) (refreshedOnce ++ [.tick 5000])).map
      (fun s => (s.clock,s.calls,s.started,s.ended)) =
      some (55000,afterRefresh,[⟨0,someone,0⟩],[]) := by decide
  obtain ⟨s,ok,same⟩ := Option.map_eq_some_iff.mp facts
  obtain ⟨clock,calls,started,ended⟩ : s.clock = 55000 ∧ s.calls = afterRefresh ∧
      s.started = [⟨0,someone,0⟩] ∧ s.ended = [] := by simpa only [Prod.mk.injEq] using same
  obtain ⟨x,mem,-,within⟩ := acceptedUntil minute 0 _ s ok ⟨.refresh 3,[0],.returned 50000 (.tokens newPair)⟩
    (by rw [calls]; decide) 50000 newPair rfl (by rw [calls]; decide) (by rw [clock]; decide)
    (by rw [ended]; decide)
  rw [started,List.mem_singleton] at mem
  subst mem
  exact ⟨s,ok,within.mpr (by rw [clock]; decide)⟩

theorem lapsedInChain : ¬ ∀ cfg clock as s, run (step cfg) (State.init clock) as = some s →
    ∀ call ∈ s.calls, ∀ time pair, call.point = .returned time (.tokens pair) →
    (∀ other ∈ s.calls, other.op.presents pair.refreshToken = false) →
    s.clock < time + 1000*pair.refreshExpiresIn → pair.accessToken.sid ∉ s.ended →
    Accepts cfg s pair.refreshToken := by
  intro accepts
  have facts : (run (step minute) (State.init 0) (refreshedOnce ++ [.tick 20000])).map
      (fun s => (s.clock,s.calls,s.ended,refreshAlone minute s 8)) =
      some (70000,afterRefresh,[],some (.error (.sessionRevoked ""))) := by decide
  obtain ⟨s,ok,same⟩ := Option.map_eq_some_iff.mp facts
  obtain ⟨clock,calls,ended,answer⟩ : s.clock = 70000 ∧ s.calls = afterRefresh ∧ s.ended = [] ∧
      refreshAlone minute s 8 = some (.error (.sessionRevoked "")) := by
    simpa only [Prod.mk.injEq] using same
  obtain ⟨pair,accepted⟩ := accepts minute 0 _ s ok ⟨.refresh 3,[0],.returned 50000 (.tokens newPair)⟩
    (by rw [calls]; decide) 50000 newPair rfl (by rw [calls]; decide) (by rw [clock]; decide)
    (by rw [ended]; decide)
  rw [show newPair.refreshToken = 8 from rfl,answer] at accepted
  cases accepted

end DevkitCommon.Authx
