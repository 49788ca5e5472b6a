import DevkitCommon.Authx.Records
import Mathlib.Data.List.Basic

/-! One refresh token, one new pair. Refresh reads the refresh key and deletes it in a
later pipeline that does not look at it again, so the law rests on no other call having
read the key when the pipeline runs. -/
namespace DevkitCommon.Authx
open Machine Redis

def Point.holds (token : Token) (p : Point) : Bool := p.reads.any (fun found => found.1 == token)

def Point.exchanging : Point → Bool
  | .storeRefresh _ _ | .returned _ (.tokens _) => true
  | _ => false

def Call.exchanging (token : Token) (call : Call) : Prop :=
  call.op = .refresh token ∧ call.point.exchanging = true

def rotation (s : State) : Action → Option (Nat × Token)
  | .command c reply => (s.calls[c]?).bind (fun call => match call.point with
    | .rotate token _ => if reply.ran then some (c,token) else none
    | _ => none)
  | _ => none

def Alone (s : State) (a : Action) : Prop :=
  ∀ r ∈ rotation s a, ∀ other ∈ s.calls.eraseIdx r.1, other.point.holds r.2 = false

instance (s : State) (a : Action) : Decidable (Alone s a) := by unfold Alone; infer_instance

def ExchangedOnce (s : State) : Prop :=
  ∀ (token : Token) (i j : Nat) (x y : Call), s.calls[i]? = some x → s.calls[j]? = some y → i ≠ j →
    x.op = .refresh token → y.op = .refresh token →
    (∃ time r, x.point = .returned time (.tokens r)) →
    ∀ time r, y.point = .returned time r → ∃ e, r = .error e

structure Rotated (s : State) : Prop where
  fits : ∀ call ∈ s.calls, call.point.fits call.op
  minted : Minted s
  recorded : Recorded s
  gone : ∀ token, s.keys.used token ≠ none →
    s.keys.refresh token = none ∧ ∀ call ∈ s.calls, call.point.holds token = false
  left : ∀ call ∈ s.calls, ∀ token, call.exchanging token → s.keys.used token ≠ none
  once : ∀ (token : Token) (i j : Nat) (x y : Call), s.calls[i]? = some x → s.calls[j]? = some y →
    x.exchanging token → y.exchanging token → i = j

variable {cfg : Config} {s t : State} {a : Action} {op : Op} {p q : Point} {reply : Reply}
  {token : Token} {c : Nat} {call now : Call}

theorem holdsExact : p.holds token = true ↔ ∃ rec, p.reads = some (token,rec) := by
  unfold Point.holds
  cases p.reads with
  | none => simp only [Option.any_none,Bool.false_eq_true,reduceCtorEq,exists_false]
  | some found =>
    obtain ⟨u,rec⟩ := found
    simp only [Option.any_some,beq_iff_eq,Option.some.injEq,Prod.mk.injEq]
    exact ⟨fun same => ⟨rec,same,rfl⟩,fun ⟨_,same,_⟩ => same⟩

theorem exchangingEdge (edge : Edge cfg s op reply p q) (exchanging : q.exchanging = true) :
    p.exchanging = true ∨ (∃ who sid, p = .startSession who sid) ∨
      reply = .ok ∧ ∃ token rec, p = .rotate token rec := by
  cases edge with
  | @started who sid => exact .inr (.inl ⟨who,sid,rfl⟩)
  | stored => exact .inl rfl
  | @rotated token rec => exact .inr (.inr ⟨rfl,token,rec,rfl⟩)
  | _ => simp only [Point.exchanging,Bool.false_eq_true] at exchanging

theorem holdsAfter (does : Does cfg s a t) (found : t.calls[c]? = some now)
    (holds : now.point.holds token = true) :
    (∃ call, s.calls[c]? = some call ∧ call.point.holds token = true) ∨
      s.keys.refresh token ≠ none := by
  obtain ⟨rec,reads⟩ := holdsExact.mp holds
  rcases readsAfter does found reads with ⟨call,before,was⟩ | ⟨e,raw,-⟩
  · exact .inl ⟨call,before,holdsExact.mpr ⟨rec,was⟩⟩
  · exact .inr (by simp only [raw,ne_eq,reduceCtorEq,not_false_eq_true])

theorem exchangingAfter (fits : ∀ call ∈ s.calls, call.point.fits call.op) (does : Does cfg s a t)
    (found : t.calls[c]? = some now) (exchanging : now.exchanging token) :
    (∃ call, s.calls[c]? = some call ∧ call.exchanging token) ∨
      ∃ call rec, s.calls[c]? = some call ∧ call.point = .rotate token rec ∧ a = .command c .ok := by
  obtain ⟨op,exchanging⟩ := exchanging
  cases callAfter does found with
  | same before idle => exact .inl ⟨now,before,op,exchanging⟩
  | began op' what last new =>
    subst new
    cases op
    simp only [first,Point.exchanging,Bool.false_eq_true] at exchanging
  | moved call p before goes new =>
    subst new
    have fit := fits call (List.mem_of_getElem? before)
    cases goes with
    | command edge =>
      rcases exchangingEdge edge exchanging with already | ⟨who,sid,start⟩ | ⟨rfl,u,rec,rotate⟩
      · exact .inl ⟨call,before,op,already⟩
      · rw [start] at fit
        exact absurd (op.symm.trans fit) (by simp only [reduceCtorEq,not_false_eq_true])
      · rw [rotate] at fit
        cases op.symm.trans fit
        exact .inr ⟨call,rec,before,rotate,rfl⟩
    | _ => simp only [Point.exchanging,Bool.false_eq_true] at exchanging

theorem usedKept (does : Does cfg s a t) (used : s.keys.used token ≠ none) :
    t.keys.used token ≠ none := by
  cases wrote does with
  | nothing keys => rwa [keys]
  | command c reply call p what ran found edge clock minted keys =>
    rw [keys]
    rcases usedWritten (p := call.point) with same | ⟨rec,-,new⟩
    · rwa [same]
    · simp only [new,ne_eq,reduceCtorEq,not_false_eq_true]

theorem usedAfter (does : Does cfg s a t) (used : t.keys.used token ≠ none) :
    s.keys.used token ≠ none ∨ ∃ c call rec, s.calls[c]? = some call ∧
      call.point = .rotate token rec ∧ rotation s a = some (c,token) ∧ t.keys.refresh token = none := by
  cases wrote does with
  | nothing keys => rw [keys] at used; exact .inl used
  | command c reply call p what ran found edge clock minted keys =>
    rw [keys] at used
    rcases usedWritten (p := call.point) with same | ⟨rec,rotate,-⟩
    · rw [same] at used
      exact .inl used
    · refine .inr ⟨c,call,rec,found,rotate,?_,?_⟩
      · simp only [what,rotation,found,Option.bind_some,rotate,ran,if_true]
      · rw [keys,rotate]
        exact delSame

theorem rotateUses {rec} (does : Does cfg s (.command c .ok) t) (found : s.calls[c]? = some call)
    (rotate : call.point = .rotate token rec) : t.keys.used token ≠ none := by
  cases does with
  | @command _ other _ p here goes =>
    cases Option.some.inj (found.symm.trans here)
    rw [gotoKeys,sendRan rfl,rotate]
    simp only [effect,setSame,ne_eq,reduceCtorEq,not_false_eq_true]

theorem rotationMoves {j} (does : Does cfg s a t) (runs : rotation s a = some (c,token))
    (after : t.calls[j]? = some now) :
    (j ≠ c ∧ s.calls[j]? = some now) ∨ now.point.holds token = false := by
  cases a with
  | command c' reply =>
    obtain ⟨call,p,found,edge,calls⟩ := commandMoves does
    simp only [rotation,found,Option.bind_some] at runs
    split at runs <;> try contradiction
    rename_i u rec here
    split at runs <;> try contradiction
    cases Option.some.inj runs
    rw [here] at edge
    rw [calls,List.getElem?_set] at after
    split at after
    · split at after <;> try contradiction
      cases Option.some.inj after
      cases edge <;> exact .inr rfl
    · rename_i other
      exact .inl ⟨Ne.symm other,after⟩
  | _ => simp only [rotation,reduceCtorEq] at runs

theorem usedMinted (inv : Rotated s) (used : s.keys.used token ≠ none) : token < s.minted := by
  obtain ⟨e,raw⟩ := Option.ne_none_iff_exists'.mp used
  obtain ⟨y,issued,rfl,-⟩ := inv.recorded.used token e raw
  exact inv.minted.issued y issued

theorem rotatedStep (inv : Rotated s) (alone : Alone s a) (one : step cfg s a = some t) :
    Rotated t := by
  have does := stepDoes one
  have holder : ∀ {token : Token} {c : Nat} {call : Call} {rec : RefreshRecord},
      s.calls[c]? = some call → call.point = .rotate token rec → s.keys.used token = none := by
    intro token c call rec found rotate
    by_contra used
    have none := (inv.gone token used).2 call (List.mem_of_getElem? found)
    rw [rotate,holdsExact.mpr ⟨rec,rfl⟩] at none
    contradiction
  refine ⟨fitsStep inv.fits does,mintedStep inv.minted one,recordedStep inv.recorded one,?_,?_,?_⟩
  · intro token used
    rcases usedAfter does used with old | ⟨c,call,rec,found,rotate,runs,gone⟩
    · obtain ⟨gone,none⟩ := inv.gone token old
      constructor
      · by_contra present
        rcases refreshAfter does present with here | ⟨rfl,-⟩
        · exact here gone
        · exact Nat.lt_irrefl _ (usedMinted inv old)
      · intro now mem
        obtain ⟨c,found⟩ := List.getElem?_of_mem mem
        by_contra holds
        rcases holdsAfter does found (by simpa using holds) with ⟨call,before,held⟩ | here
        · rw [none call (List.mem_of_getElem? before)] at held
          contradiction
        · exact here gone
    · refine ⟨gone,?_⟩
      intro now mem
      obtain ⟨j,after⟩ := List.getElem?_of_mem mem
      rcases rotationMoves does runs after with ⟨other,before⟩ | leaves
      · exact alone (c,token) runs now (List.mem_eraseIdx_iff_getElem?.mpr ⟨j,other,before⟩)
      · exact leaves
  · intro now mem token exchanging
    obtain ⟨c,found⟩ := List.getElem?_of_mem mem
    rcases exchangingAfter inv.fits does found exchanging with ⟨call,before,already⟩ | ⟨call,rec,before,rotate,rfl⟩
    · exact usedKept does (inv.left call (List.mem_of_getElem? before) token already)
    · exact rotateUses does before rotate
  · intro token i j x y hx hy ex ey
    rcases exchangingAfter inv.fits does hx ex with ⟨u,hu,eu⟩ | ⟨u,rec,hu,ru,hi⟩ <;>
    rcases exchangingAfter inv.fits does hy ey with ⟨v,hv,ev⟩ | ⟨v,rec',hv,rv,hj⟩
    · exact inv.once token i j u v hu hv eu ev
    · exact absurd (holder hv rv) (inv.left u (List.mem_of_getElem? hu) token eu)
    · exact absurd (holder hu ru) (inv.left v (List.mem_of_getElem? hv) token ev)
    · exact (Action.command.inj (hi.symm.trans hj)).1

theorem initRotated (clock : Int) : Rotated (State.init clock) where
  fits := fun _ mem => nomatch mem
  minted := initMinted clock
  recorded := initRecorded clock
  gone := fun _ used => absurd rfl used
  left := fun _ mem => nomatch mem
  once := fun _ _ _ _ _ found => nomatch found

theorem rotatedOnce (inv : Rotated s) : ExchangedOnce s := by
  intro token i j x y hx hy other ox oy got time r back
  obtain ⟨time',pair,pairBack⟩ := got
  have fit := inv.fits y (List.mem_of_getElem? hy)
  rw [back,oy] at fit
  cases r with
  | tokens pair' =>
    have ex : x.exchanging token := ⟨ox,by rw [pairBack]; rfl⟩
    have ey : y.exchanging token := ⟨oy,by rw [back]; rfl⟩
    exact absurd (inv.once token i j x y hx hy ex ey) other
  | done => exact absurd rfl fit
  | error e => exact ⟨e,rfl⟩

theorem tokensExchangedOnce (cfg : Config) (clock : Int) (as : List Action) (s : State)
    (alone : Along (step cfg) Alone (State.init clock) as)
    (ok : run (step cfg) (State.init clock) as = some s) : ExchangedOnce s :=
  rotatedOnce (runKeeps rotatedStep (initRotated clock) alone ok)

def sample : Config := ⟨"",0,0,none⟩
def member : Principal := ⟨"member",42⟩
def loggedIn : List Action :=
  [.call (.login member),.command 0 .ok,.command 0 .ok,.command 0 .ok]

def retried : List Action := loggedIn ++
  [.call (.refresh 3),.call (.refresh 3),.command 1 .ok,.command 2 .ok,.crash 1,
    .command 2 .ok,.command 2 .ok,.command 2 .ok,
    .call (.refresh 3),.command 3 .ok,.command 3 .ok,.listed 3 [0],.command 3 .ok,.command 3 .ok]

theorem retriedExchangedOnce : ∃ s, run (step sample) (State.init 0) retried = some s ∧
    ExchangedOnce s := by
  have ok : (run (step sample) (State.init 0) retried).isSome = true := by decide
  obtain ⟨s,ok⟩ := Option.isSome_iff_exists.mp ok
  exact ⟨s,ok,tokensExchangedOnce sample 0 retried s (by decide) ok⟩

def raced : List Action := loggedIn ++
  [.call (.refresh 3),.call (.refresh 3),.command 1 .ok,.command 2 .ok,.command 1 .ok,.command 2 .ok,
    .command 1 .ok,.command 2 .ok,.command 1 .ok,.command 2 .ok]

def exchanged (token : Token) (n : Nat) : Call :=
  ⟨.refresh token,[0],.returned 0 (.tokens (issue sample 0 n ⟨member,0⟩))⟩

theorem exchangedTwice : ¬ ∀ cfg clock as s,
    run (step cfg) (State.init clock) as = some s → ExchangedOnce s := by
  intro once
  have calls : (run (step sample) (State.init 0) raced).map (fun s => s.calls.drop 1) =
      some [exchanged 3 12,exchanged 3 13] := by decide
  obtain ⟨s,ok,ends⟩ := Option.map_eq_some_iff.mp calls
  have first : s.calls[1]? = some (exchanged 3 12) := by
    rw [← List.getElem?_drop (i := 1) (j := 0),ends]; rfl
  have second : s.calls[2]? = some (exchanged 3 13) := by
    rw [← List.getElem?_drop (i := 1) (j := 1),ends]; rfl
  obtain ⟨e,refused⟩ := once sample 0 raced s ok 3 1 2 _ _ first second (by decide) rfl rfl
    ⟨0,_,rfl⟩ 0 _ rfl
  contradiction

end DevkitCommon.Authx
