import DevkitCommon.Authx.Records

/-! RevokeAll reads the session set, ends what it read and deletes the set. Between the
three the set has to list every live session; what stands in the way is a session the
read did not see, an error RevokeAll or the replay drops, and a set that lapses first. -/
namespace DevkitCommon.Authx
open Machine Redis

def Config.setLasts (cfg : Config) : Prop :=
  0 < cfg.refreshLife ∧ cfg.refreshLasts ≤ 1000*expireSeconds cfg.refreshLife

instance (cfg : Config) : Decidable cfg.setLasts := by unfold Config.setLasts; infer_instance

def Op.refreshes : Op → Bool
  | .refresh _ => true
  | _ => false

def readWhole (s : State) : Action → Bool
  | .command c reply => (s.calls[c]?).all (fun call => match call.point with
    | .delSessions who listed => (members s.keys.sessionSet s.clock who).all
        (fun sid => !s.alive sid || listed.contains sid)
    | .endListed _ _ _ _ _ => !call.op.refreshes || reply == .ok
    | _ => true)
  | _ => true

def ReadWhole (s : State) (a : Action) : Prop := readWhole s a = true
instance (s : State) (a : Action) : Decidable (ReadWhole s a) := by unfold ReadWhole; infer_instance

def Reports (s : State) (call : Call) (who : Principal) : Prop :=
  (∃ reason time, call.op = .revokeAll who reason ∧ call.point = .returned time .done) ∨
  ∃ token time, call.op = .refresh token ∧ call.point = .returned time (.error .refreshReplayed) ∧
    ∃ y ∈ s.issued, y.token = token ∧ y.record.who = who

def revokeAlone (cfg : Config) (s : State) (who : Principal) (reason : String) : Option State :=
  let sids := members s.keys.sessionSet s.clock who
  run (step cfg) s (.call (.revokeAll who reason) :: .listed s.calls.length sids ::
    List.replicate (sids.length + 1) (.command s.calls.length .ok))

def WouldEnd (cfg : Config) (s : State) (x : Session) : Prop :=
  ∀ reason, ∃ t time, revokeAlone cfg s x.who reason = some t ∧
    Stands t s.calls.length (.revokeAll x.who reason) (.returned time .done) ∧ t.alive x.sid = false

def AllRevoked (cfg : Config) (s : State) : Prop :=
  (∀ call ∈ s.calls, ∀ who, Reports s call who →
    ∀ x ∈ s.started, x.who = who → x.sid ∈ call.before → s.alive x.sid = false) ∧
  ∀ x ∈ s.started, s.alive x.sid = true → WouldEnd cfg s x

def Point.toEnd : Point → Option Sid
  | .endPrevious _ _ old => some old
  | .endLogout _ _ rec => some rec.sid
  | _ => none

def Point.dropping : Point → Option Sid
  | .dropPrevious _ _ old => some old
  | .getCurrent _ _ rec | .delCurrent _ _ rec | .dropLogout _ _ rec => some rec.sid
  | _ => none

def Point.left : Point → Option (List Sid × List Sid)
  | .endListed _ _ listed sid rest => some (listed,sid::rest)
  | .delSessions _ listed => some (listed,[])
  | _ => none

def Point.revoking : Point → Option Principal
  | .listSessions who _ | .endListed who _ _ _ _ | .delSessions who _ => some who
  | _ => none

def State.over (s : State) (sid : Sid) : Prop := sid ∈ s.sids ∧ s.alive sid = false

structure Listed (cfg : Config) (s : State) : Prop where
  fits : ∀ call ∈ s.calls, call.point.fits call.op
  minted : Minted s
  recorded : Recorded s
  current : ∀ who e, s.keys.session who = some e → e.value ∈ s.sids
  lapses : ∀ sid e, s.keys.sessionAlive sid = some e →
    ∃ begun ≤ s.clock, e.lapses = some (begun + cfg.refreshLasts)
  owned : ∀ who f, s.keys.sessionSet who = some f → ∀ sid ∈ f.value, sid ∈ s.sids
  listed : ∀ x ∈ s.started, s.alive x.sid = true → ∃ e f, s.keys.sessionAlive x.sid = some e ∧
    s.keys.sessionSet x.who = some f ∧ x.sid ∈ f.value ∧ f.Outlasts e
  toEnd : ∀ call ∈ s.calls, ∀ sid, call.point.toEnd = some sid → sid ∈ s.sids
  dropping : ∀ call ∈ s.calls, ∀ sid, call.point.dropping = some sid → s.over sid
  left : ∀ call ∈ s.calls, ∀ listed left, call.point.left = some (listed,left) →
    ∀ sid ∈ listed, sid ∈ s.sids ∧ (sid ∈ left ∨ s.alive sid = false)
  replays : ∀ call ∈ s.calls, ∀ token who, call.op = .refresh token →
    call.point.revoking = some who → ∃ y ∈ s.issued, y.token = token ∧ y.record.who = who
  told : ∀ call ∈ s.calls, ∀ token time, call.op = .refresh token →
    call.point = .returned time (.error .refreshReplayed) → ∃ y ∈ s.issued, y.token = token
  before : ∀ call ∈ s.calls, ∀ sid ∈ call.before, sid ∈ s.sids
  quiet : ∀ call ∈ s.calls, ∀ who, Reports s call who →
    ∀ x ∈ s.started, x.who = who → x.sid ∈ call.before → s.alive x.sid = false

variable {cfg : Config} {s t : State} {a : Action} {op : Op} {p q : Point} {reply : Reply}
  {token : Token} {sid : Sid} {c : Nat} {call now : Call} {rec : RefreshRecord} {who : Principal}
  {listed left : List Sid}

section Edges

theorem endFine {reason : String} (fine : endFails cfg reason reply = false) : reply = .ok := by
  unfold endFails at fine
  cases reply
  case ok => rfl
  all_goals simp at fine

theorem toEndEdge (edge : Edge cfg s op reply p q) (toEnd : q.toEnd = some sid) :
    (∃ who e, s.keys.session who = some e ∧ e.value = sid) ∨
      ∃ token e, s.keys.refresh token = some e ∧ e.value.sid = sid := by
  cases edge with
  | @oldSession who _ old found =>
    cases toEnd
    obtain ⟨e,raw,-,same⟩ := getExact.mp found
    exact .inl ⟨who,e,raw,same⟩
  | @loggedIn token _ rec found =>
    cases toEnd
    obtain ⟨e,raw,-,same⟩ := getExact.mp found
    exact .inr ⟨token,e,raw,by rw [same]⟩
  | _ => cases toEnd

theorem droppingEdge (edge : Edge cfg s op reply p q) (dropping : q.dropping = some sid) :
    p.dropping = some sid ∨ reply = .ok ∧ p.toEnd = some sid ∧ sid ∈ p.ends := by
  cases edge with
  | endedPrevious fine | endedLogout fine =>
    cases dropping
    exact .inr ⟨endFine fine,rfl,List.mem_singleton_self _⟩
  | isCurrent | notCurrent | delCurrent => exact .inl dropping
  | _ => cases dropping

theorem leftLeaves (goes : Leaves cfg s c call a p) (here : p.left = some (listed,left)) :
    listed = [] ∨
    (left = listed ∧ ∃ who, ∀ sid ∈ listed, sid ∈ members s.keys.sessionSet s.clock who) ∨
    ∃ sid, a = .command c .ok ∧ call.point.left = some (listed,sid::left) ∧ sid ∈ call.point.ends := by
  cases goes with
  | command edge =>
    generalize point : call.point = source at edge
    cases edge with
    | unlisted => cases here; exact .inl rfl
    | @endedOne _ _ _ _ sid _ _ fine | @endedLast _ _ _ _ sid fine =>
      cases here
      rw [endFine fine]
      exact .inr (.inr ⟨sid,rfl,rfl,List.mem_singleton_self sid⟩)
    | _ => cases here
  | @listed who _ _ _ _ all =>
    cases here
    exact .inr (.inl ⟨rfl,who,fun sid mem => all.subset mem⟩)
  | noneListed => cases here; exact .inl rfl
  | crash => cases here

theorem doneLeaves {time : Int} {reason : String} (goes : Leaves cfg s c call a p)
    (fits : call.point.fits call.op) (op : call.op = .revokeAll who reason)
    (done : p = .returned time .done) :
    ∃ reply listed, a = .command c reply ∧ call.point = .delSessions who listed := by
  cases goes with
  | @command reply _ edge =>
    rw [op] at fits
    generalize point : call.point = source at edge fits
    cases edge with
    | @revokedAll w listed =>
      obtain ⟨reason',same | ⟨token,same⟩⟩ := fits <;> cases same
      exact ⟨_,listed,rfl,rfl⟩
    | loggedOut last => rcases last with rfl | rfl <;> cases fits
    | blacklisted => obtain ⟨token,access,same⟩ := fits; cases same
    | _ => cases done
  | _ => cases done

theorem replayedLeaves {time : Int} (goes : Leaves cfg s c call a p)
    (replayed : p = .returned time (.error .refreshReplayed)) : ∃ reply, a = .command c reply ∧
      ((∃ who listed, call.point = .delSessions who listed) ∨
        ∃ who reason listed sid rest, call.point = .endListed who reason listed sid rest ∧
          endFails cfg reason reply = true) := by
  cases goes with
  | @command reply _ edge =>
    generalize point : call.point = source at edge
    cases edge with
    | @replayEnds _ _ who listed => exact ⟨reply,rfl,.inl ⟨who,listed,rfl⟩⟩
    | @replayCut _ _ who reason listed sid rest _ fails =>
      exact ⟨reply,rfl,.inr ⟨who,reason,listed,sid,rest,rfl,fails⟩⟩
    | refused other => cases replayed; exact absurd rfl other
    | _ => cases replayed
  | _ => cases replayed

theorem revokingLeaves (goes : Leaves cfg s c call a p) (revoking : p.revoking = some who) :
    call.point.revoking = some who ∨
      ∃ token e, call.point = .getUsed token ∧ s.keys.used token = some e ∧ e.value.who = who := by
  cases goes with
  | command edge =>
    generalize point : call.point = source at edge
    cases edge with
    | @replay token rec found =>
      cases revoking
      obtain ⟨e,raw,-,same⟩ := getExact.mp found
      exact .inr ⟨token,e,rfl,raw,by rw [same]⟩
    | unlisted | endedOne | endedLast => exact .inl revoking
    | _ => cases revoking
  | listed here => rw [here]; exact .inl revoking
  | noneListed here => rw [here]; exact .inl revoking
  | crash => cases revoking

end Edges

section Steps

theorem dropsDropping (drops : p.drops = some (who,sid)) : p.dropping = some sid := by
  cases p <;> simp only [Point.drops,Option.some.injEq,Prod.mk.injEq,reduceCtorEq] at drops
  all_goals exact congrArg some drops.2

theorem expirePositive (lasts : cfg.setLasts) : 0 < expireSeconds cfg.refreshLife := by
  have one : (1 : Int) ≤ cfg.refreshLasts := Int.le_max_left ..
  have enough := lasts.2
  omega

theorem startLists (lasts : cfg.setLasts) (k : Keys) (now : Int) (who : Principal) (sid : Sid) :
    ∃ l, (startSession cfg now who sid k).sessionSet who =
        some ⟨l,some (now + 1000*expireSeconds cfg.refreshLife)⟩ ∧
      sid ∈ l ∧ ∀ x ∈ members k.sessionSet now who, x ∈ l := saddExpire (expirePositive lasts)

theorem setOutlasts {e : Entry Int} {l : List Sid} {time begun later : Int} (lasts : cfg.setLasts)
    (past : begun ≤ time) (same : e.lapses = some (begun + cfg.refreshLasts))
    (alive : e.live later = true) :
    Entry.live later ⟨l,some (time + 1000*expireSeconds cfg.refreshLife)⟩ = true := by
  have enough := lasts.2
  simp only [Entry.live,same,Option.all_some,decide_eq_true_eq] at alive ⊢
  omega

theorem sidsKept (does : Does cfg s a t) (mem : sid ∈ s.sids) : sid ∈ t.sids := by
  obtain ⟨x,started,same⟩ := List.mem_map.mp mem
  exact List.mem_map.mpr ⟨x,startedKept does x started,same⟩

theorem aliveRaw {e : Entry Int} (inv : Minted s) (does : Does cfg s a t) (mem : sid ∈ s.sids)
    (raw : t.keys.sessionAlive sid = some e) : s.keys.sessionAlive sid = some e := by
  cases wrote does with
  | nothing keys => rwa [keys] at raw
  | command c reply call p what ran found edge clock minted keys =>
    rw [keys] at raw
    rcases aliveWritten (p := call.point) with same | ⟨-,gone⟩ | ⟨who,here,-⟩
    · rwa [same] at raw
    · rw [gone] at raw
      contradiction
    · exact absurd mem (inv.pending c call sid found (by rw [here]; rfl)).2

theorem aliveBefore (inv : Minted s) (does : Does cfg s a t) (mem : sid ∈ s.sids)
    (alive : t.alive sid = true) : s.alive sid = true := by
  obtain ⟨uid,found⟩ := Option.isSome_iff_exists.mp alive
  obtain ⟨e,raw,live,-⟩ := getExact.mp found
  rw [State.alive,getLive (aliveRaw inv does mem raw)]
  exact liveBefore live (clockAfter does)

theorem overKept (inv : Minted s) (does : Does cfg s a t) (isOver : s.over sid) : t.over sid := by
  refine ⟨sidsKept does isOver.1,?_⟩
  by_contra alive
  have was := aliveBefore inv does isOver.1 (by simpa using alive)
  rw [isOver.2] at was
  contradiction

theorem endsOver (does : Does cfg s (.command c .ok) t) (found : s.calls[c]? = some call)
    (ends : sid ∈ call.point.ends) : t.alive sid = false := by
  cases does with
  | @command _ other _ p here goes =>
    cases Option.some.inj (found.symm.trans here)
    have gone : (effect cfg s.clock s.minted s.keys call.point).sessionAlive sid = none := endsAlive ends
    simp only [State.alive,gotoKeys,gotoClock,sendRan (show Reply.ok.ran = true from rfl),getNone gone,
      Option.isSome_none]

theorem currentStep (inv : Listed cfg s) (does : Does cfg s a t) {e : Entry Sid}
    (raw : t.keys.session who = some e) : e.value ∈ t.sids := by
  cases wrote does with
  | nothing keys => rw [keys] at raw; exact sidsKept does (inv.current who e raw)
  | command c reply call p what ran found edge clock minted keys started =>
    rw [keys] at raw
    rcases sessionWritten raw with old | ⟨w,here⟩
    · exact sidsKept does (inv.current who e old)
    · rw [State.sids,started,here,List.map_append]
      exact List.mem_append_right _ (List.mem_singleton_self _)

theorem lapsesStep (lasts : cfg.setLasts) (inv : Listed cfg s) (does : Does cfg s a t) {e : Entry Int}
    (raw : t.keys.sessionAlive sid = some e) :
    ∃ begun ≤ t.clock, e.lapses = some (begun + cfg.refreshLasts) := by
  have kept : s.keys.sessionAlive sid = some e →
      ∃ begun ≤ t.clock, e.lapses = some (begun + cfg.refreshLasts) := by
    intro old
    obtain ⟨begun,past,same⟩ := inv.lapses sid e old
    exact ⟨begun,Int.le_trans past (clockAfter does),same⟩
  cases wrote does with
  | nothing keys => rw [keys] at raw; exact kept raw
  | command c reply call p what ran found edge clock minted keys =>
    rw [keys] at raw
    rcases aliveWritten (p := call.point) with same | ⟨-,gone⟩ | ⟨who,here,new⟩
    · rw [same] at raw
      exact kept raw
    · rw [gone] at raw
      contradiction
    · rw [new,setLapsePositive lasts.1] at raw
      cases Option.some.inj raw
      exact ⟨s.clock,Int.le_of_eq clock.symm,rfl⟩

theorem ownedStep (inv : Listed cfg s) (does : Does cfg s a t) {f : Entry (List Sid)}
    (raw : t.keys.sessionSet who = some f) (mem : sid ∈ f.value) : sid ∈ t.sids := by
  cases wrote does with
  | nothing keys => rw [keys] at raw; exact sidsKept does (inv.owned who f raw sid mem)
  | command c reply call p what ran found edge clock minted keys started =>
    rw [keys] at raw
    rcases setWritten (p := call.point) with same | ⟨new,here,adds⟩ | ⟨old,-,removes⟩ | ⟨l,-,gone⟩
    · rw [same] at raw
      exact sidsKept does (inv.owned who f raw sid mem)
    · rw [adds] at raw
      obtain ⟨g,added,same⟩ := expireValue raw
      rcases saddFrom added (same ▸ mem) with rfl | ⟨h,was,mem⟩
      · rw [State.sids,started,here,List.map_append]
        exact List.mem_append_right _ (List.mem_singleton_self _)
      · exact sidsKept does (inv.owned who h was sid mem)
    · rw [removes] at raw
      obtain ⟨h,was,mem⟩ := sremFrom raw mem
      exact sidsKept does (inv.owned who h was sid mem)
    · rw [gone] at raw
      contradiction

theorem deleteDead (inv : Listed cfg s) (whole : ReadWhole s (.command c reply))
    (found : s.calls[c]? = some call) (here : call.point = .delSessions who listed) :
    ∀ x ∈ s.started, x.who = who → s.alive x.sid = false := by
  intro x started same
  subst same
  by_contra alive
  have alive : s.alive x.sid = true := by simpa using alive
  obtain ⟨e,f,key,set,mem,outlasts⟩ := inv.listed x started alive
  have live : e.live s.clock = true := by rwa [← getLive key]
  have shown := memMembers.mpr ⟨f,set,outlasts s.clock live,mem⟩
  simp only [ReadWhole,readWhole,found,Option.all_some,here,List.all_eq_true,Bool.or_eq_true,
    Bool.not_eq_true',List.contains_iff_mem] at whole
  rcases whole x.sid shown with dead | read
  · rw [alive] at dead
    contradiction
  · have ended := (inv.left call (List.mem_of_getElem? found) listed [] (by rw [here]; rfl) x.sid read).2
    rcases ended with waiting | dead
    · cases waiting
    · rw [alive] at dead
      contradiction

theorem setKept (lasts : cfg.setLasts) (inv : Listed cfg s) (whole : ReadWhole s a) (does : Does cfg s a t)
    {x : Session} {e : Entry Int} {f : Entry (List Sid)} (started : x ∈ s.started)
    (alive : s.alive x.sid = true)
    (key : s.keys.sessionAlive x.sid = some e) (set : s.keys.sessionSet x.who = some f)
    (mem : x.sid ∈ f.value) (outlasts : f.Outlasts e) :
    ∃ f, t.keys.sessionSet x.who = some f ∧ x.sid ∈ f.value ∧ f.Outlasts e := by
  have live : e.live s.clock = true := by rwa [← getLive key]
  have members : x.sid ∈ members s.keys.sessionSet s.clock x.who :=
    memMembers.mpr ⟨f,set,outlasts s.clock live,mem⟩
  cases wrote does with
  | nothing keys => rw [keys]; exact ⟨f,set,mem,outlasts⟩
  | command c reply call p what ran found edge clock minted keys =>
    have held := List.mem_of_getElem? found
    rw [keys]
    rcases setWritten (p := call.point) with same | ⟨new,-,adds⟩ | ⟨old,drops,removes⟩ | ⟨l,here,-⟩
    · rw [same]
      exact ⟨f,set,mem,outlasts⟩
    · obtain ⟨l,added,-,others⟩ := startLists lasts s.keys s.clock x.who new
      rw [adds]
      refine ⟨_,added,others _ members,fun later alive => ?_⟩
      obtain ⟨begun,past,same⟩ := inv.lapses x.sid e key
      exact setOutlasts lasts past same alive
    · rw [removes]
      have gone : s.alive old = false := (inv.dropping call held old (dropsDropping drops)).2
      obtain ⟨g,kept,same,mem⟩ := sremKeeps set (outlasts s.clock live) mem
        (fun same => by rw [same,gone] at alive; contradiction)
      exact ⟨g,kept,mem,fun later alive => by
        have was := outlasts later alive
        simpa only [Entry.live,same] using was⟩
    · rw [what] at whole
      rw [deleteDead inv whole found here x started rfl] at alive
      contradiction

theorem listedStep (lasts : cfg.setLasts) (inv : Listed cfg s) (whole : ReadWhole s a)
    (does : Does cfg s a t) {x : Session} (mem : x ∈ t.started) (alive : t.alive x.sid = true) :
    ∃ e f, t.keys.sessionAlive x.sid = some e ∧ t.keys.sessionSet x.who = some f ∧
      x.sid ∈ f.value ∧ f.Outlasts e := by
  by_cases old : x ∈ s.started
  · have known : x.sid ∈ s.sids := List.mem_map_of_mem old
    have was := aliveBefore inv.minted does known alive
    obtain ⟨e,f,key,set,mem,outlasts⟩ := inv.listed x old was
    obtain ⟨uid,found⟩ := Option.isSome_iff_exists.mp alive
    obtain ⟨e',raw,-,-⟩ := getExact.mp found
    cases Option.some.inj (key.symm.trans (aliveRaw inv.minted does known raw))
    obtain ⟨f',kept⟩ := setKept lasts inv whole does old was key set mem outlasts
    exact ⟨e,f',raw,kept⟩
  · cases wrote does with
    | nothing keys started => exact absurd (started ▸ mem) old
    | command c reply call p what ran found edge clock minted keys started =>
      rw [started] at mem
      rcases List.mem_append.mp mem with was | new
      · exact absurd was old
      · obtain ⟨who,sid,here,rfl⟩ := startsExact new
        obtain ⟨l,added,listed,-⟩ := startLists lasts s.keys s.clock who sid
        rw [keys,here]
        refine ⟨_,_,setSame,added,listed,fun later alive => ?_⟩
        exact setOutlasts lasts (Int.le_refl s.clock) (setLapsePositive lasts.1) alive

theorem initListed (clock : Int) : Listed cfg (State.init clock) where
  fits := fun _ mem => nomatch mem
  minted := initMinted clock
  recorded := initRecorded clock
  current := fun _ _ raw => nomatch raw
  lapses := fun _ _ raw => nomatch raw
  owned := fun _ _ raw => nomatch raw
  listed := fun _ mem => nomatch mem
  toEnd := fun _ mem => nomatch mem
  dropping := fun _ mem => nomatch mem
  left := fun _ mem => nomatch mem
  replays := fun _ mem => nomatch mem
  told := fun _ mem => nomatch mem
  before := fun _ mem => nomatch mem
  quiet := fun _ mem => nomatch mem

end Steps

section Calls

theorem toEndStep (inv : Listed cfg s) (does : Does cfg s a t) (mem : now ∈ t.calls)
    (toEnd : now.point.toEnd = some sid) : sid ∈ t.sids := by
  obtain ⟨c,found⟩ := List.getElem?_of_mem mem
  cases callAfter does found with
  | same before idle => exact sidsKept does (inv.toEnd now (List.mem_of_getElem? before) sid toEnd)
  | began op what last new =>
    subst new
    cases op <;> simp only [first] at toEnd
    case login => split at toEnd <;> cases toEnd
    all_goals cases toEnd
  | moved call p before goes new =>
    subst new
    cases goes with
    | command edge =>
      rcases toEndEdge edge toEnd with ⟨who,e,raw,rfl⟩ | ⟨token,e,raw,rfl⟩
      · exact sidsKept does (inv.current who e raw)
      · obtain ⟨y,issued,-,same⟩ := inv.recorded.refresh token e raw
        obtain ⟨x,started,sid,-⟩ := inv.recorded.issued y issued
        rw [← same,← sid]
        exact sidsKept does (List.mem_map_of_mem started)
    | _ => cases toEnd

theorem droppingStep (inv : Listed cfg s) (does : Does cfg s a t) (mem : now ∈ t.calls)
    (dropping : now.point.dropping = some sid) : t.over sid := by
  obtain ⟨c,found⟩ := List.getElem?_of_mem mem
  cases callAfter does found with
  | same before idle =>
    exact overKept inv.minted does (inv.dropping now (List.mem_of_getElem? before) sid dropping)
  | began op what last new =>
    subst new
    cases op <;> simp only [first] at dropping
    case login => split at dropping <;> cases dropping
    all_goals cases dropping
  | moved call p before goes new =>
    subst new
    have held := List.mem_of_getElem? before
    cases goes with
    | command edge =>
      rcases droppingEdge edge dropping with was | ⟨rfl,toEnd,ends⟩
      · exact overKept inv.minted does (inv.dropping call held sid was)
      · exact ⟨sidsKept does (inv.toEnd call held sid toEnd),endsOver does before ends⟩
    | _ => cases dropping

theorem leftStep (inv : Listed cfg s) (does : Does cfg s a t) (mem : now ∈ t.calls)
    (here : now.point.left = some (listed,left)) (read : sid ∈ listed) :
    sid ∈ t.sids ∧ (sid ∈ left ∨ t.alive sid = false) := by
  have kept : (sid ∈ s.sids ∧ (sid ∈ left ∨ s.alive sid = false)) →
      sid ∈ t.sids ∧ (sid ∈ left ∨ t.alive sid = false) :=
    fun ⟨known,rest⟩ => ⟨sidsKept does known,rest.imp id fun dead => (overKept inv.minted does ⟨known,dead⟩).2⟩
  obtain ⟨c,found⟩ := List.getElem?_of_mem mem
  cases callAfter does found with
  | same before idle => exact kept (inv.left now (List.mem_of_getElem? before) listed left here sid read)
  | began op what last new =>
    subst new
    cases op <;> simp only [first] at here
    case login => split at here <;> cases here
    all_goals cases here
  | moved call p before goes new =>
    subst new
    rcases leftLeaves goes here with rfl | ⟨rfl,who,shown⟩ | ⟨next,rfl,was,ends⟩
    · cases read
    · obtain ⟨f,raw,-,mem⟩ := memMembers.mp (shown sid read)
      exact kept ⟨inv.owned who f raw sid mem,.inl read⟩
    · obtain ⟨known,rest⟩ := inv.left call (List.mem_of_getElem? before) listed (next::left) was sid read
      rcases rest with waiting | dead
      · rcases List.mem_cons.mp waiting with rfl | later
        · exact ⟨sidsKept does known,.inr (endsOver does before ends)⟩
        · exact kept ⟨known,.inl later⟩
      · exact kept ⟨known,.inr dead⟩

theorem replaysStep (inv : Listed cfg s) (does : Does cfg s a t) (mem : now ∈ t.calls)
    (op : now.op = .refresh token) (revoking : now.point.revoking = some who) :
    ∃ y ∈ t.issued, y.token = token ∧ y.record.who = who := by
  have kept : (∃ y ∈ s.issued, y.token = token ∧ y.record.who = who) →
      ∃ y ∈ t.issued, y.token = token ∧ y.record.who = who :=
    fun ⟨y,issued,same⟩ => ⟨y,issuedKept does y issued,same⟩
  obtain ⟨c,found⟩ := List.getElem?_of_mem mem
  cases callAfter does found with
  | same before idle => exact kept (inv.replays now (List.mem_of_getElem? before) token who op revoking)
  | began op' what last new =>
    subst new
    cases op
    cases revoking
  | moved call p before goes new =>
    subst new
    have held := List.mem_of_getElem? before
    rcases revokingLeaves goes revoking with was | ⟨u,e,point,raw,rfl⟩
    · exact kept (inv.replays call held token who op was)
    · have fit := inv.fits call held
      rw [point] at fit
      cases op.symm.trans fit
      obtain ⟨y,issued,same,record⟩ := inv.recorded.used token e raw
      exact kept ⟨y,issued,same,by rw [record]⟩

theorem beforeStep (inv : Listed cfg s) (does : Does cfg s a t) (mem : now ∈ t.calls)
    (alive : sid ∈ now.before) : sid ∈ t.sids := by
  obtain ⟨c,found⟩ := List.getElem?_of_mem mem
  cases callAfter does found with
  | same before idle => exact sidsKept does (inv.before now (List.mem_of_getElem? before) sid alive)
  | began op what last new =>
    subst new
    exact sidsKept does (List.mem_filter.mp alive).1
  | moved call p before goes new =>
    subst new
    exact sidsKept does (inv.before call (List.mem_of_getElem? before) sid alive)

theorem endSucceeds {reason : String} (lasts : cfg.setLasts) : endFails cfg reason .ok = false := by
  have positive := lasts.1
  have taken : refused cfg.refreshLife = false := by
    unfold refused
    exact decide_eq_false (by omega)
  simp only [endFails,taken,Bool.and_false,Bool.or_false,bne_self_eq_false]

theorem replayedDel {time : Int} (lasts : cfg.setLasts) (whole : ReadWhole s a)
    (found : s.calls[c]? = some call) (op : call.op = .refresh token) (goes : Leaves cfg s c call a p)
    (replayed : p = .returned time (.error .refreshReplayed)) :
    ∃ reply who listed, a = .command c reply ∧ call.point = .delSessions who listed := by
  obtain ⟨reply,rfl,⟨who,listed,here⟩ | ⟨who,reason,listed,sid,rest,here,fails⟩⟩ := replayedLeaves goes replayed
  · exact ⟨reply,who,listed,rfl,here⟩
  · simp only [ReadWhole,readWhole,found,Option.all_some,here,op,Op.refreshes,Bool.not_true,
      Bool.false_or,beq_iff_eq] at whole
    rw [whole,endSucceeds lasts] at fails
    contradiction

theorem toldStep (lasts : cfg.setLasts) (inv : Listed cfg s) (whole : ReadWhole s a)
    (does : Does cfg s a t) (mem : now ∈ t.calls) {time : Int} (op : now.op = .refresh token)
    (replayed : now.point = .returned time (.error .refreshReplayed)) :
    ∃ y ∈ t.issued, y.token = token := by
  obtain ⟨c,found⟩ := List.getElem?_of_mem mem
  cases callAfter does found with
  | same before idle =>
    obtain ⟨y,issued,same⟩ := inv.told now (List.mem_of_getElem? before) token time op replayed
    exact ⟨y,issuedKept does y issued,same⟩
  | began op' what last new =>
    subst new
    cases op
    cases replayed
  | moved call p before goes new =>
    subst new
    obtain ⟨reply,who,listed,-,here⟩ := replayedDel lasts whole before op goes replayed
    obtain ⟨y,issued,same,-⟩ := inv.replays call (List.mem_of_getElem? before) token who op (by rw [here]; rfl)
    exact ⟨y,issuedKept does y issued,same⟩

theorem startedBefore (inv : Minted t) (does : Does cfg s a t) {x : Session} (mem : x ∈ t.started)
    (known : x.sid ∈ s.sids) : x ∈ s.started := by
  obtain ⟨y,started,same⟩ := List.mem_map.mp known
  have equal := Table.sameRow inv.sids (startedKept does y started) mem same
  exact equal ▸ started

theorem quietStep (lasts : cfg.setLasts) (inv : Listed cfg s) (minted : Minted t)
    (whole : ReadWhole s a) (does : Does cfg s a t) (mem : now ∈ t.calls) (reports : Reports t now who)
    {x : Session} (started : x ∈ t.started) (whose : x.who = who) (was : x.sid ∈ now.before) :
    t.alive x.sid = false := by
  obtain ⟨c,found⟩ := List.getElem?_of_mem mem
  cases callAfter does found with
  | same before idle =>
    have held := List.mem_of_getElem? before
    have known := inv.before now held x.sid was
    refine (overKept inv.minted does ⟨known,?_⟩).2
    refine inv.quiet now held who ?_ x (startedBefore minted does started known) whose was
    rcases reports with own | ⟨token,time,op,replayed,y,issued,same,owner⟩
    · exact .inl own
    · obtain ⟨z,old,same'⟩ := inv.told now held token time op replayed
      have equal := Table.sameRow minted.tokens (issuedKept does z old) issued (same'.trans same.symm)
      exact .inr ⟨token,time,op,replayed,z,old,same',equal ▸ owner⟩
  | began op what last new =>
    subst new
    rcases reports with ⟨reason,time,op',point⟩ | ⟨token,time,op',point,-⟩ <;> cases op' <;> cases point
  | moved call p before goes new =>
    subst new
    have held := List.mem_of_getElem? before
    have known := inv.before call held x.sid was
    have old := startedBefore minted does started known
    refine (overKept inv.minted does ⟨known,?_⟩).2
    rcases reports with ⟨reason,time,op,done⟩ | ⟨token,time,op,replayed,y,issued,same,owner⟩
    · obtain ⟨reply,listed,rfl,here⟩ := doneLeaves goes (inv.fits call held) op done
      exact deleteDead inv whole before here x old whose
    · obtain ⟨reply,w,listed,rfl,here⟩ := replayedDel lasts whole before op goes replayed
      obtain ⟨z,first,same',owner'⟩ := inv.replays call held token w op (by rw [here]; rfl)
      have equal := Table.sameRow minted.tokens (issuedKept does z first) issued (same'.trans same.symm)
      subst equal
      exact deleteDead inv whole before here x old (whose.trans (owner.symm.trans owner'))

theorem revocableStep (lasts : cfg.setLasts) (inv : Listed cfg s) (whole : ReadWhole s a)
    (one : step cfg s a = some t) : Listed cfg t := by
  have does := stepDoes one
  have minted := mintedStep inv.minted one
  refine ⟨fitsStep inv.fits does,minted,recordedStep inv.recorded one,?_,?_,?_,?_,?_,?_,?_,?_,?_,?_,?_⟩
  · exact fun who e raw => currentStep inv does raw
  · exact fun sid e raw => lapsesStep lasts inv does raw
  · exact fun who f raw sid mem => ownedStep inv does raw mem
  · exact fun x mem alive => listedStep lasts inv whole does mem alive
  · exact fun now mem sid toEnd => toEndStep inv does mem toEnd
  · exact fun now mem sid dropping => droppingStep inv does mem dropping
  · exact fun now mem listed left here sid read => leftStep inv does mem here read
  · exact fun now mem token who op revoking => replaysStep inv does mem op revoking
  · exact fun now mem token time op replayed => toldStep lasts inv whole does mem op replayed
  · exact fun now mem sid alive => beforeStep inv does mem alive
  · exact fun now mem who reports x started whose was =>
      quietStep lasts inv minted whole does mem reports started whose was

theorem endsEach {reason : String} (lasts : cfg.setLasts) (rest : List Sid) :
    ∀ {u : State}, Stands u c (.revokeAll who reason) (endEach who reason listed rest) →
    ∃ v time, run (step cfg) u (List.replicate (rest.length + 1) (.command c .ok)) = some v ∧
      Stands v c (.revokeAll who reason) (.returned time .done) ∧
      ∀ sid, (sid ∈ rest ∨ u.keys.sessionAlive sid = none) → v.keys.sessionAlive sid = none := by
  induction rest with
  | nil =>
    intro u here
    obtain ⟨v,one,stands,-,keys,-⟩ := advance (q := .returned u.clock .done) here
      (by simp only [endEach,next,if_true,revokeReturns])
    refine ⟨v,u.clock,runCons.mpr ⟨v,one,rfl⟩,stands,fun sid gone => ?_⟩
    rw [keys]
    exact gone.resolve_left List.not_mem_nil
  | cons sid rest ih =>
    intro u here
    have ends : next cfg u (.revokeAll who reason) .ok (endEach who reason listed (sid::rest)) =
        some (endEach who reason listed rest) := by
      simp only [endEach,next,endSucceeds lasts,Bool.false_eq_true,if_false]
    obtain ⟨m,one,stands,-,keys,-⟩ := advance here ends
    obtain ⟨v,time,more,ends,gone⟩ := ih stands
    refine ⟨v,time,runCons.mpr ⟨m,one,more⟩,ends,fun x known => gone x ?_⟩
    by_cases same : x = sid
    · subst same
      exact .inr (by rw [keys]; exact delSame)
    · rcases known with mem | was
      · exact .inl ((List.mem_cons.mp mem).resolve_left same)
      · exact .inr (by rw [keys]; exact (delOther same).trans was)

theorem wouldEnd (lasts : cfg.setLasts) (inv : Listed cfg s) {x : Session} (started : x ∈ s.started)
    (alive : s.alive x.sid = true) : WouldEnd cfg s x := by
  intro reason
  obtain ⟨e,f,key,set,mem,outlasts⟩ := inv.listed x started alive
  have live : e.live s.clock = true := by rwa [← getLive key]
  have shown := memMembers.mpr ⟨f,set,outlasts s.clock live,mem⟩
  let sids := members s.keys.sessionSet s.clock x.who
  let call : Call := ⟨.revokeAll x.who reason,aliveNow s,.listSessions x.who reason⟩
  let u : State := {s with calls := s.calls ++ [call],minted := s.minted + 1}
  let v := u.goto s.calls.length call (endEach x.who reason sids sids)
  have found : u.calls[s.calls.length]? = some call := List.getElem?_concat_length
  have called : step cfg s (.call (.revokeAll x.who reason)) = some u := rfl
  have listed : step cfg u (.listed s.calls.length sids) = some v := by
    simp only [step,bind,found,Option.bind_some,call]
    exact if_pos (List.Perm.refl _)
  have stands : Stands v s.calls.length (.revokeAll x.who reason) (endEach x.who reason sids sids) := by
    have short := (List.getElem?_eq_some_iff.mp found).1
    exact ⟨aliveNow s,by simp only [v,State.goto,List.getElem?_set_self short,call]⟩
  obtain ⟨t,time,rest,ends,gone⟩ := endsEach lasts sids stands
  refine ⟨t,time,runCons.mpr ⟨u,called,runCons.mpr ⟨v,listed,rest⟩⟩,ends,?_⟩
  rw [State.alive,getNone (gone x.sid (.inl shown)),Option.isSome_none]

end Calls

theorem allRevoked (cfg : Config) (lasts : cfg.setLasts) (clock : Int) (as : List Action) (s : State)
    (whole : Along (step cfg) ReadWhole (State.init clock) as)
    (ok : run (step cfg) (State.init clock) as = some s) : AllRevoked cfg s := by
  have inv : Listed cfg s := runKeeps (revocableStep lasts) (initListed clock) whole ok
  exact ⟨inv.quiet,fun x started alive => wouldEnd lasts inv started alive⟩

def manySessions : Config := ⟨"",0,0,some false⟩
def admin : Principal := ⟨"admin",7⟩
def twoLogins : List Action :=
  [.call (.login admin),.command 0 .ok,.command 0 .ok,.call (.login admin),.command 1 .ok,.command 1 .ok]

def revokedTwice : List Action := twoLogins ++
  [.call (.revokeAll admin "disabled"),.listed 2 [3,0],.command 2 .ok,
    .call (.refresh 2),.command 3 .ok,.command 3 .ok,.command 2 .failed,
    .call (.revokeAll admin "disabled"),.listed 4 [0,3],.command 4 .ok,.command 4 .lost,
    .call (.revokeAll admin "disabled"),.listed 5 [0,3],.command 5 .ok,.command 5 .ok,.command 5 .ok,
    .call (.login admin),.command 6 .ok,.command 6 .ok]

theorem revokedAgain : ∃ s, run (step manySessions) (State.init 0) revokedTwice = some s ∧
    AllRevoked manySessions s := by
  have ok : (run (step manySessions) (State.init 0) revokedTwice).isSome = true := by decide
  obtain ⟨s,ok⟩ := Option.isSome_iff_exists.mp ok
  exact ⟨s,ok,allRevoked manySessions (by decide) 0 revokedTwice s (by decide) ok⟩

def unread : List Action :=
  [.call (.login admin),.command 0 .ok,.command 0 .ok,
    .call (.revokeAll admin "disabled"),.command 1 .failed,.command 1 .ok]

theorem revokedNothing : ¬ ∀ cfg clock as s,
    run (step cfg) (State.init clock) as = some s → AllRevoked cfg s := by
  intro revoked
  have facts : (run (step manySessions) (State.init 0) unread).map
      (fun s => (s.calls[1]?,s.started,s.alive 0)) =
      some (some ⟨.revokeAll admin "disabled",[0],.returned 0 .done⟩,[⟨0,admin,0⟩],true) := by
    decide
  obtain ⟨s,ok,same⟩ := Option.map_eq_some_iff.mp facts
  obtain ⟨call,started,alive⟩ : s.calls[1]? = some ⟨.revokeAll admin "disabled",[0],.returned 0 .done⟩ ∧
      s.started = [⟨0,admin,0⟩] ∧ s.alive 0 = true := by simpa only [Prod.mk.injEq] using same
  have dead := (revoked manySessions 0 unread s ok).1 _ (List.mem_of_getElem? call) admin
    (.inl ⟨"disabled",0,rfl,rfl⟩) ⟨0,admin,0⟩ (by rw [started]; exact List.mem_singleton_self _) rfl
    (List.mem_singleton_self _)
  rw [alive] at dead
  contradiction

end DevkitCommon.Authx
