import DevkitCommon.Kitexx.ClientCalls
import DevkitCommon.Kitexx.Answered
import Mathlib

/-! A request that is retried, and a service its calls go to. Each attempt makes its calls
under the id of the request, and the service keeps what it has answered. A request and its
answer arrive late, more than once or never, and others call the service too. -/
namespace DevkitCommon.Kitexx.Retries
open Machine Redis

structure Attempt where
  scope : String
  login : Option Login
  calls : RequestID.State

structure Sender where
  attempt : Nat
  call : Nat
  deriving DecidableEq, Repr

/- senders has an entry for each call the service has got, none for those of other callers. -/
structure State (ρ δ : Type) where
  attempts : List Attempt
  server : Kitexx.State ρ δ
  senders : List (Option Sender)

inductive Action (ρ : Type) where
  | begin (scope : String) (login : Option Login)
  | client (a : Nat) (b : RequestID.Action)
  | arrive (a c : Nat) (m : Method)
  | foreign (r : Request)
  | serve (b : Kitexx.Action ρ)
  | answer (a c i : Nat)

/- An answer as the caller's middlewares see it: a business error comes back in the RPCInfo. -/
def result {ρ : Type} : Answer ρ → RequestID.Result
  | .own _ | .replayed _ | .passed (.ok _) => .ok
  | .refused _ _ | .failed .biz | .passed .biz => .failed true
  | .failed _ | .passed _ => .failed false

section Steps
variable {ρ δ : Type}

def State.init (clock : Int) : State ρ δ := ⟨[],Kitexx.State.init clock,[]⟩

def State.setAttempt (s : State ρ δ) (a : Nat) (x : Attempt) : State ρ δ := {s with attempts := s.attempts.set a x}

variable (env : Env ρ δ) (service : String)

/- A call to the service succeeds only by its answer; to another service, however it may. -/
def fromElsewhere (calls : List RequestID.Call) : RequestID.Action → Bool
  | .finish c .ok => calls[c]?.all (fun call => decide (call.service ≠ service))
  | _ => true

def step (s : State ρ δ) : Action ρ → Option (State ρ δ)
  | .begin scope login => if scope = "" then none else some {s with attempts := s.attempts ++ [⟨scope,login,.init⟩]}
  | .client a b => do
    let x ← s.attempts[a]?
    if fromElsewhere service x.calls.calls b then
      let calls ← RequestID.step x.scope x.calls b
      some (s.setAttempt a {x with calls := calls})
    else none
  | .arrive a c m => do
    let x ← s.attempts[a]?
    let call ← x.calls.calls[c]?
    if call.point.sent && decide (call.service = service) && decide (call.method = m.name) then
      let server ← Kitexx.step env s.server (.call ⟨m,some call.id,x.login⟩)
      some {s with server := server, senders := s.senders ++ [some ⟨a,c⟩]}
    else none
  | .foreign r => do
    let server ← Kitexx.step env s.server (.call r)
    some {s with server := server, senders := s.senders ++ [none]}
  | .serve (.call _) => none
  | .serve b => do
    let server ← Kitexx.step env s.server b
    some {s with server := server}
  | .answer a c i => do
    let x ← s.attempts[a]?
    let y ← s.server.calls[i]?
    match y.point with
    | .returned answer =>
      if s.senders[i]? = some (some ⟨a,c⟩) then
        let calls ← RequestID.step x.scope x.calls (.finish c (result answer))
        some (s.setAttempt a {x with calls := calls})
      else none
    | _ => none

inductive Does (s : State ρ δ) : Action ρ → State ρ δ → Prop where
  | begin (scope login) : Does s (.begin scope login) {s with attempts := s.attempts ++ [⟨scope,login,.init⟩]}
  | client {a b x calls} (found : s.attempts[a]? = some x) (elsewhere : fromElsewhere service x.calls.calls b = true)
      (one : RequestID.step x.scope x.calls b = some calls) : Does s (.client a b) (s.setAttempt a {x with calls := calls})
  | arrive {a c m x call server} (found : s.attempts[a]? = some x) (made : x.calls.calls[c]? = some call)
      (sent : call.point.sent = true) (ours : call.service = service) (method : call.method = m.name)
      (one : Kitexx.step env s.server (.call ⟨m,some call.id,x.login⟩) = some server) :
      Does s (.arrive a c m) {s with server := server, senders := s.senders ++ [some ⟨a,c⟩]}
  | foreign {r server} (one : Kitexx.step env s.server (.call r) = some server) :
      Does s (.foreign r) {s with server := server, senders := s.senders ++ [none]}
  | serve {b server} (goes : ∀ r, b ≠ .call r) (one : Kitexx.step env s.server b = some server) :
      Does s (.serve b) {s with server := server}
  | answer {a c i x y answer calls} (found : s.attempts[a]? = some x) (served : s.server.calls[i]? = some y)
      (returned : y.point = .returned answer) (own : s.senders[i]? = some (some ⟨a,c⟩))
      (one : RequestID.step x.scope x.calls (.finish c (result answer)) = some calls) :
      Does s (.answer a c i) (s.setAttempt a {x with calls := calls})

end Steps

section Books
variable {ρ δ : Type} (env : Env ρ δ) (service : String)

def Succeeded (s : State ρ δ) (a c : Nat) (f : Fields) : Prop :=
  ∃ x call, s.attempts[a]? = some x ∧ x.calls.calls[c]? = some call ∧ call.service = service ∧
    call.point = .ended .ok ∧ call.method = f.method.name ∧ call.id = f.requestId ∧ x.login = f.login

structure Backed (s : State ρ δ) : Prop where
  aligned : s.senders.length = s.server.calls.length
  books : ∀ {a : Nat} {x : Attempt}, s.attempts[a]? = some x → RequestID.Books x.scope x.calls
  sent : ∀ {i a c : Nat}, s.senders[i]? = some (some ⟨a,c⟩) → ∃ x call y m, s.attempts[a]? = some x ∧
    x.calls.calls[c]? = some call ∧ s.server.calls[i]? = some y ∧ call.service = service ∧ call.method = m.name ∧
    y.request = ⟨m,some call.id,x.login⟩
  ended : ∀ {a c : Nat} {x : Attempt} {call : RequestID.Call}, s.attempts[a]? = some x → x.calls.calls[c]? = some call →
    call.service = service → call.point = .ended .ok → ∃ (i : Nat) (y : Kitexx.Call ρ δ) (answer : Answer ρ),
      s.senders[i]? = some (some ⟨a,c⟩) ∧ s.server.calls[i]? = some y ∧ y.point = .returned answer ∧ result answer = .ok

end Books

variable {ρ δ : Type} {env : Env ρ δ} {service : String} {s t : State ρ δ} {a : Action ρ}

theorem stepDoes (one : step env service s a = some t) : Does env service s a t := by
  cases a with
  | begin scope login =>
    simp only [step] at one
    split at one <;> try contradiction
    cases Option.some.inj one
    exact .begin scope login
  | client a b =>
    simp only [step,bind,Option.bind_eq_some_iff] at one
    obtain ⟨x,found,last⟩ := one
    split at last <;> try contradiction
    rename_i elsewhere
    obtain ⟨calls,one,last⟩ := Option.bind_eq_some_iff.mp last
    cases Option.some.inj last
    exact .client found elsewhere one
  | arrive a c m =>
    simp only [step,bind,Option.bind_eq_some_iff] at one
    obtain ⟨x,found,call,made,last⟩ := one
    split at last <;> try contradiction
    rename_i checks
    obtain ⟨server,one,last⟩ := Option.bind_eq_some_iff.mp last
    cases Option.some.inj last
    simp only [Bool.and_eq_true,decide_eq_true_eq] at checks
    exact .arrive found made checks.1.1 checks.1.2 checks.2 one
  | foreign r =>
    simp only [step,bind,Option.bind_eq_some_iff] at one
    obtain ⟨server,one,last⟩ := one
    cases Option.some.inj last
    exact .foreign one
  | serve b =>
    cases b with
    | call r => exact nomatch one
    | _ =>
      simp only [step,bind] at one
      obtain ⟨server,served,last⟩ := Option.bind_eq_some_iff.mp one
      cases Option.some.inj last
      exact .serve (fun r same => nomatch same) served
  | answer a c i =>
    simp only [step,bind,Option.bind_eq_some_iff] at one
    obtain ⟨x,found,y,served,last⟩ := one
    split at last <;> try contradiction
    rename_i answer returned
    split at last <;> try contradiction
    rename_i own
    obtain ⟨calls,one,last⟩ := Option.bind_eq_some_iff.mp last
    cases Option.some.inj last
    exact .answer found served returned own one

theorem clientStays {scope : String} {u v : RequestID.State} {b : RequestID.Action}
    (one : RequestID.step scope u b = some v) {c : Nat} {call : RequestID.Call} (found : u.calls[c]? = some call) :
    ∃ now, v.calls[c]? = some now ∧ call.Alike now ∧ (call.point.sent = true → now.point.sent = true) := by
  have moved {i : Nat} {old next : RequestID.Call} (here : u.calls[i]? = some old) (alike : old.Alike next)
      (sent : old.point.sent = true → next.point.sent = true) :
      ∃ now, (u.calls.set i next)[c]? = some now ∧ call.Alike now ∧ (call.point.sent = true → now.point.sent = true) := by
    rcases setStays (i := i) (a := next) found with ⟨rfl,now⟩ | ⟨-,now⟩
    · cases Option.some.inj (here.symm.trans found)
      exact ⟨next,now,alike,sent⟩
    · exact ⟨call,now,⟨rfl,rfl,rfl⟩,id⟩
  cases RequestID.stepDoes one with
  | call => exact ⟨call,concatStays found,⟨rfl,rfl,rfl⟩,id⟩
  | sends here at' | refuses here at' => exact moved here ⟨rfl,rfl,rfl⟩ (by rw [at']; exact nofun)
  | ends here | fails _ here | frees here => exact moved here ⟨rfl,rfl,rfl⟩ (fun _ => rfl)

theorem clientEnds {scope : String} {u v : RequestID.State} {b : RequestID.Action}
    (one : RequestID.step scope u b = some v) {c : Nat} {call : RequestID.Call} (now : v.calls[c]? = some call)
    (ended : call.point = .ended .ok) :
    u.calls[c]? = some call ∨ b = .finish c .ok ∧ ∃ old, u.calls[c]? = some old ∧ old.Alike call := by
  have moved {i : Nat} {next : RequestID.Call} (now : (u.calls.set i next)[c]? = some call)
      (other : next.point ≠ .ended .ok) : u.calls[c]? = some call := by
    rcases setFound now with ⟨-,rfl⟩ | ⟨-,old⟩
    · exact absurd ended other
    · exact old
  cases RequestID.stepDoes one with
  | call service method id =>
    rcases concatFrom now with old | ⟨-,rfl⟩
    · exact .inl old
    · obtain ⟨claim,-⟩ | ⟨why,refused⟩ := RequestID.checkedCases scope id
      · exact nomatch claim.symm.trans ended
      · exact nomatch refused.symm.trans ended
  | sends | refuses | fails | frees => exact .inl (moved now nofun)
  | @ends i old result found here stays =>
    rcases setFound now with ⟨rfl,rfl⟩ | ⟨-,kept⟩
    · cases ended
      exact .inr ⟨rfl,old,found,rfl,rfl,rfl⟩
    · exact .inl kept

theorem backedClient (inv : Backed service s) {i : Nat} {x : Attempt} {b : RequestID.Action} {calls : RequestID.State}
    (found : s.attempts[i]? = some x) (one : RequestID.step x.scope x.calls b = some calls)
    (backed : ∀ (c : Nat) (old : RequestID.Call), b = .finish c .ok → x.calls.calls[c]? = some old → old.service = service →
      ∃ (j : Nat) (y : Kitexx.Call ρ δ) (answer : Answer ρ), s.senders[j]? = some (some ⟨i,c⟩) ∧
        s.server.calls[j]? = some y ∧ y.point = .returned answer ∧ result answer = .ok) :
    Backed service (s.setAttempt i {x with calls := calls}) where
  aligned := inv.aligned
  books := by
    intro a z now
    rcases setFound now with ⟨rfl,rfl⟩ | ⟨-,old⟩
    · have before : RequestID.Books x.scope x.calls := inv.books found
      exact (RequestID.stepBooks before one : RequestID.Books x.scope calls)
    · exact inv.books old
  sent := by
    intro j a c its
    obtain ⟨z,call,y,m,there,made,served,names⟩ := inv.sent its
    rcases setStays (i := i) (a := {x with calls := calls}) there with ⟨rfl,now⟩ | ⟨-,now⟩
    · cases Option.some.inj (there.symm.trans found)
      obtain ⟨next,made',⟨service',method,id⟩,-⟩ := clientStays one made
      exact ⟨_,next,y,m,now,made',served,service'.trans names.1,method.trans names.2.1,by rw [names.2.2,id]⟩
    · exact ⟨z,call,y,m,now,made,served,names⟩
  ended := by
    intro a c z call now made ours ended
    rcases setFound now with ⟨rfl,rfl⟩ | ⟨-,old⟩
    · rcases clientEnds one made ended with before | ⟨same,first,made',alike⟩
      · exact inv.ended found before ours ended
      · exact backed c first same made' (alike.1.symm.trans ours)
    · exact inv.ended old made ours ended

theorem backedArrives (inv : Backed service s) {r : Request} {sender : Option Sender} {server : Kitexx.State ρ δ}
    (one : Kitexx.step env s.server (.call r) = some server)
    (own : ∀ d ∈ sender, ∃ x call m, s.attempts[d.attempt]? = some x ∧ x.calls.calls[d.call]? = some call ∧
      call.service = service ∧ call.method = m.name ∧ r = ⟨m,some call.id,x.login⟩) :
    Backed service {s with server := server, senders := s.senders ++ [sender]} := by
  cases Option.some.inj one
  constructor
  · simp only [List.length_append,List.length_singleton,inv.aligned]
  · exact inv.books
  · intro j a c its
    rcases concatFrom its with old | ⟨rfl,same⟩
    · obtain ⟨x,call,y,m,there,made,served,names⟩ := inv.sent old
      exact ⟨x,call,y,m,there,made,concatStays served,names⟩
    · obtain ⟨x,call,m,there,made,names⟩ := own ⟨a,c⟩ same.symm
      refine ⟨x,call,⟨r,false,first env r,none⟩,m,there,made,?_,names⟩
      rw [inv.aligned]
      exact List.getElem?_concat_length
  · intro a c x call found made ours ended
    obtain ⟨j,y,answer,its,served,returned⟩ := inv.ended found made ours ended
    exact ⟨j,y,answer,concatStays its,concatStays served,returned⟩

theorem backedServes (inv : Backed service s) {b : Kitexx.Action ρ} {server : Kitexx.State ρ δ}
    (goes : ∀ r, b ≠ .call r) (one : Kitexx.step env s.server b = some server) :
    Backed service {s with server := server} where
  aligned := by
    rcases callsMove one with same | ⟨r,same,-⟩ | ⟨c,call,call',-,moved,-⟩
    · rw [same,inv.aligned]
    · exact absurd same (goes r)
    · rw [moved,List.length_set,inv.aligned]
  books := inv.books
  sent := by
    intro j a c its
    obtain ⟨x,call,y,m,there,made,served,ours,method,request⟩ := inv.sent its
    obtain ⟨y',now,same,-⟩ := callStays one served
    exact ⟨x,call,y',m,there,made,now,ours,method,same.trans request⟩
  ended := by
    intro a c x call found made ours ended
    obtain ⟨j,y,answer,its,served,returned,ok⟩ := inv.ended found made ours ended
    obtain ⟨y',now,-,same⟩ := callStays one served
    exact ⟨j,y',answer,its,now,(same answer returned).trans returned,ok⟩

theorem backedStep (inv : Backed service s) (one : step env service s a = some t) : Backed service t := by
  cases stepDoes one with
  | begin scope login =>
    have none' {c : Nat} {call : RequestID.Call} : RequestID.State.init.calls[c]? ≠ some call := nofun
    constructor
    · exact inv.aligned
    · intro a x now
      rcases concatFrom now with old | ⟨-,rfl⟩
      · exact inv.books old
      · exact RequestID.reachableBooks ⟨[],rfl⟩
    · intro i a c its
      obtain ⟨x,call,y,m,there,rest⟩ := inv.sent its
      exact ⟨x,call,y,m,concatStays there,rest⟩
    · intro a c x call now made
      rcases concatFrom now with old | ⟨-,rfl⟩
      · exact inv.ended old made
      · exact absurd made none'
  | client found elsewhere goes =>
    refine backedClient inv found goes (fun c old same made ours => ?_)
    rw [same,fromElsewhere,made,Option.all_some,decide_eq_true_eq] at elsewhere
    exact absurd ours elsewhere
  | arrive found made sent ours method goes =>
    refine backedArrives inv goes (fun d same => ?_)
    cases Option.some.inj same
    exact ⟨_,_,_,found,made,ours,method,rfl⟩
  | foreign goes => exact backedArrives inv goes nofun
  | serve other goes => exact backedServes inv other goes
  | @answer a c i x y answer calls found served returned own goes =>
    refine backedClient inv found goes (fun c' old same made ours => ?_)
    obtain ⟨rfl,ok⟩ := RequestID.Action.finish.inj same
    exact ⟨i,y,answer,own,served,returned,ok⟩

theorem answersStep {clock : Int} (young : Young clock s.server) (answered : ∀ f, Answered env s.server f)
    (soon : s.server.clock < clock+remembered) (one : step env service s a = some t) :
    Young clock t.server ∧ ∀ f, Answered env t.server f := by
  have serves {b : Kitexx.Action ρ} {server : Kitexx.State ρ δ} (one : Kitexx.step env s.server b = some server) :
      Young clock server ∧ ∀ f, Answered env server f :=
    ⟨youngStep young (Kitexx.stepDoes one),fun f => answeredStep (answered f) (youngWithin young soon _) one⟩
  cases stepDoes one with
  | begin | client | answer => exact ⟨young,answered⟩
  | arrive _ _ _ _ _ goes | foreign goes | serve _ goes => exact serves goes

theorem clockSteps (one : step env service s a = some t) : s.server.clock ≤ t.server.clock := by
  cases stepDoes one with
  | begin | client | answer => exact Int.le_refl _
  | arrive _ _ _ _ _ goes | foreign goes | serve _ goes => exact clockGrows (Kitexx.stepDoes goes)

theorem reachedAnswered {clock : Int} (reached : Reachable (step env service) (State.init clock) s)
    (soon : s.server.clock < clock+remembered) : ∀ f, Answered env s.server f := by
  have start : Young clock (State.init clock : State ρ δ).server ∧
      ∀ f, Answered env (State.init clock : State ρ δ).server f := by
    refine ⟨⟨Int.le_refl _,fun there => nomatch there⟩,fun f => ?_⟩
    have nobody {i : Nat} {x : Kitexx.Call ρ δ} : (State.init clock : State ρ δ).server.calls[i]? ≠ some x := nofun
    exact ⟨claimedInit clock,nofun,fun ⟨_,found,_⟩ => absurd found nobody,fun there => (nomatch there),
      fun found => absurd found nobody,nofun⟩
  have keep {s t : State ρ δ} {a : Action ρ} (inv : clock+remembered ≤ s.server.clock ∨
      Young clock s.server ∧ ∀ f, Answered env s.server f) (one : step env service s a = some t) :
      clock+remembered ≤ t.server.clock ∨ Young clock t.server ∧ ∀ f, Answered env t.server f := by
    rcases inv with late | ⟨young,answered⟩
    · exact .inl (Int.le_trans late (clockSteps one))
    · rcases Int.lt_or_le s.server.clock (clock+remembered) with soon | late
      · exact .inr (answersStep young answered soon one)
      · exact .inl (Int.le_trans late (clockSteps one))
  rcases reachableKeeps keep (.inr start) reached with late | ⟨-,answered⟩
  · omega
  · exact answered

theorem reachedBacked {clock : Int} (reached : Reachable (step env service) (State.init clock) s) : Backed service s := by
  have start : Backed service (State.init clock : State ρ δ) := ⟨rfl,nofun,nofun,nofun⟩
  exact reachableKeeps backedStep start reached

theorem succeededExecuted (inv : Backed service s) (answered : ∀ f, Answered env s.server f) {a c : Nat} {f : Fields}
    (done : Succeeded service s a c f) : ∃ i v, Executed env s.server f i v := by
  obtain ⟨x,call,found,made,ours,ended,method,id,login⟩ := done
  obtain ⟨i,y,answer,its,served,returned,ok⟩ := inv.ended found made ours ended
  obtain ⟨x',call',y',m,found',made',served',-,method',request⟩ := inv.sent its
  cases Option.some.inj (found.symm.trans found')
  cases Option.some.inj (made.symm.trans made')
  cases Option.some.inj (served.symm.trans served')
  have under : Of env (f.key env.service) y := by
    rw [Of,request,methodName (method'.symm.trans method),id,login]
    rfl
  cases answer with
  | own v =>
    have recorded := (answered f).recorded y (List.mem_of_getElem? served)
    rw [returned] at recorded
    exact ⟨i,v,y,served,under,recorded⟩
  | replayed w =>
    obtain ⟨j,v,executed,-⟩ := (answered f).replayed served under returned
    exact ⟨j,v,executed⟩
  | passed o =>
    have none' := (answered f).through y (List.mem_of_getElem? served) (.inr ⟨o,returned⟩)
    rw [request] at none'
    contradiction
  | refused => contradiction
  | failed o => cases o <;> contradiction

theorem keysApart (inv : Backed service s) {a c c' : Nat} {f f' : Fields} (other : c ≠ c')
    (done : Succeeded service s a c f) (done' : Succeeded service s a c' f') :
    f.key env.service ≠ f'.key env.service := by
  obtain ⟨x,call,found,made,ours,ended,method,id,login⟩ := done
  obtain ⟨x',call',found',made',ours',ended',method',id',login'⟩ := done'
  cases Option.some.inj (found.symm.trans found')
  intro same
  obtain ⟨methods,rest⟩ := keySplit.mp same
  rw [← login,← login'] at rest
  have ids : f.requestId = f'.requestId := String.toList_inj.mp (List.append_cancel_right rest)
  have alike : call.Alike call' := by
    refine ⟨ours'.trans ours.symm,?_,?_⟩
    · rw [method,method',methods]
    · rw [id,id',ids]
  have single := (RequestID.booksClaimed (inv.books found)).single c c' call call' made made' alike
  exact other (single (by rw [ended]; rfl) (by rw [ended']; rfl))

theorem executedByOne {clock : Int} (reached : Reachable (step env service) (State.init clock) s)
    (soon : s.server.clock < clock+remembered) :
    (∀ a c f, Succeeded service s a c f → (∃! i, ∃ v, Executed env s.server f i v) ∧
      NoneRunning env (f.key env.service) s.server) ∧
    (∀ a c c' f f', c ≠ c' → Succeeded service s a c f → Succeeded service s a c' f' →
      ∀ i v w, Executed env s.server f i v → ¬Executed env s.server f' i w) ∧
    ∀ f i v, Executed env s.server f i v → ∀ y ∈ s.server.calls, Of env (f.key env.service) y → ∀ w,
      (y.point = .returned (.own w) → w = v) ∧
      (y.point = .returned (.replayed w) → (env.marshal f.method v).bind (env.setSuccess f.method) = some w) := by
  have backed := reachedBacked reached
  have answered := reachedAnswered reached soon
  refine ⟨fun a c f done => ?_,fun a c c' f f' other done done' i v w left right => ?_,
    fun f i v executed y mem under w => ⟨fun own => ?_,fun replayed => ?_⟩⟩
  · obtain ⟨i,v,executed⟩ := succeededExecuted backed answered done
    refine ⟨⟨i,⟨v,executed⟩,fun j ⟨w,also⟩ => (answered f).single also executed⟩,?_⟩
    obtain ⟨x,found,under,ok⟩ := executed
    exact claimedNone (answered f).claimed ⟨i,x,v,found,under,ok⟩
  · obtain ⟨x,found,under,-⟩ := left
    obtain ⟨x',found',under',-⟩ := right
    cases Option.some.inj (found.symm.trans found')
    exact keysApart backed other done done' (Option.some.inj (under.symm.trans under'))
  · obtain ⟨j,served⟩ := List.mem_iff_getElem?.mp mem
    have recorded := (answered f).recorded y mem
    rw [own] at recorded
    have also : Executed env s.server f j w := ⟨y,served,under,recorded⟩
    cases (answered f).single also executed
    obtain ⟨x,found,-,ok⟩ := executed
    cases Option.some.inj (served.symm.trans found)
    cases Option.some.inj (recorded.symm.trans ok)
    rfl
  · obtain ⟨j,served⟩ := List.mem_iff_getElem?.mp mem
    obtain ⟨i',v',also,same⟩ := (answered f).replayed served under replayed
    cases (answered f).single also executed
    obtain ⟨x,found,-,ok⟩ := executed
    obtain ⟨x',found',-,ok'⟩ := also
    cases Option.some.inj (found.symm.trans found')
    cases Option.some.inj (ok.symm.trans ok')
    exact same

def feeRetried : List (Action Nat) :=
  [.begin "r1" pay.login,.client 0 (.call "WalletService" "Transfer" "r1"),.client 0 (.claim 0),
    .arrive 0 0 transfer,.serve (.setNX 0 .ok),.serve (.finish 0 (.ok 5)),.serve (.store 0 .ok),
    .client 0 (.finish 0 (.failed false)),.client 0 (.free 0),
    .begin "r1" pay.login,.client 1 (.call "WalletService" "Transfer" "r1"),.client 1 (.claim 0),
    .arrive 1 0 transfer,.serve (.setNX 1 .ok),.serve (.get 1 .ok),.answer 1 0 1,
    .client 1 (.call "WalletService" "Transfer" "r1:fee"),.client 1 (.claim 1),
    .arrive 1 1 transfer,.serve (.setNX 2 .ok),.serve (.finish 2 (.ok 6)),.serve (.store 2 .ok),.answer 1 1 2]

def stake : Fields := ⟨transfer,"r1",pay.login⟩
def fee : Fields := ⟨transfer,"r1:fee",pay.login⟩

def afterFee : List (Option Login × List RequestID.Call) :=
  [(stake.login,[⟨"WalletService","Transfer","r1",.ended (.failed false)⟩]),
    (stake.login,[⟨"WalletService","Transfer","r1",.ended .ok⟩,⟨"WalletService","Transfer","r1:fee",.ended .ok⟩])]

theorem feeOnce : ∃ s, run (step wallet "WalletService") (State.init 0) feeRetried = some s ∧
    s.server.calls.map Kitexx.Call.point = [.returned (.own 5),.returned (.replayed 5),.returned (.own 6)] ∧
    (∃! i, ∃ v, Executed wallet s.server stake i v) ∧ (∃! i, ∃ v, Executed wallet s.server fee i v) ∧
    ∀ i v w, Executed wallet s.server stake i v → ¬Executed wallet s.server fee i w := by
  have facts : (run (step wallet "WalletService") (State.init 0) feeRetried).map (fun s =>
      (s.server.clock,s.attempts.map (fun x => (x.login,x.calls.calls)))) = some (0,afterFee) := by decide
  have served : (run (step wallet "WalletService") (State.init 0) feeRetried).map (fun s =>
      s.server.calls.map Kitexx.Call.point) =
      some [.returned (.own 5),.returned (.replayed 5),.returned (.own 6)] := by decide
  obtain ⟨s,ok,both⟩ := Option.map_eq_some_iff.mp facts
  obtain ⟨clock,attempts⟩ := Prod.mk.inj both
  rw [ok] at served
  have second : (s.attempts.map (fun x => (x.login,x.calls.calls)))[1]? = afterFee[1]? := by rw [attempts]
  rw [List.getElem?_map] at second
  obtain ⟨x,found,same⟩ := Option.map_eq_some_iff.mp second
  obtain ⟨login,calls⟩ := Prod.mk.inj same
  have first : Succeeded "WalletService" s 1 0 stake := ⟨x,_,found,by rw [calls]; rfl,rfl,rfl,rfl,rfl,login⟩
  have other : Succeeded "WalletService" s 1 1 fee := ⟨x,_,found,by rw [calls]; rfl,rfl,rfl,rfl,rfl,login⟩
  obtain ⟨once,apart,-⟩ := executedByOne ⟨feeRetried,ok⟩ (by rw [clock]; decide)
  exact ⟨s,ok,Option.some.inj served,(once 1 0 stake first).1,(once 1 1 fee other).1,
    apart 1 0 1 stake fee (by decide) first other⟩

end DevkitCommon.Kitexx.Retries
