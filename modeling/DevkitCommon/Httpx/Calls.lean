import DevkitCommon.Httpx.InFlight
import Mathlib

/-! The calls of a client over the guard. resty sends an attempt, net/http follows its redirects,
and another attempt is sent while retryCondition asks for one and retries are left. When a call
begins, which attempt goes on and what becomes of it stand in the actions. -/
namespace DevkitCommon.Httpx.Client
open Machine

def defaultRetries : Int := 2

def retries (configured : Option Int) : Int := (configured.map (max 0)).getD defaultRetries

inductive Method where
  | get | head | options | put | delete
  | other (name : String)
  deriving DecidableEq, Repr

def Method.idempotent : Method → Bool
  | .get | .head | .options | .put | .delete => true
  | .other _ => false

inductive Failure where
  | errCircuitOpen
  | errTooManyInFlight
  | other (err : Err)
  deriving DecidableEq, Repr

/- There is no raw request where resty could not build one. -/
def retryCondition (raw : Bool) (method : Method) (result : Except Failure Nat) : Bool :=
  match result with
  | .error .errCircuitOpen | .error .errTooManyInFlight => false
  | .error (.other _) => if !raw then true else method.idempotent
  | .ok status => if !raw || !method.idempotent then false else status == tooManyRequests || decide (500 ≤ status)

/- What becomes of a request before the guard: resty cannot build it, it is not signed (the auth
transport has no token, no signer or a signer that fails), or the guard has it. -/
inductive Way where
  | unbuilt (err : Err)
  | unsigned (f : Failure)
  | guarded
  deriving DecidableEq, Repr

inductive Trip where
  | unbuilt (err : Err)
  | unsigned (f : Failure)
  | through (i : Nat)
  deriving DecidableEq, Repr

def Trip.sent : Trip → Nat
  | .through _ => 1
  | _ => 0

structure Attempt where
  last : Trip
  hops : Nat
  sent : Nat
  result : Option (Except Failure Nat)
  deriving Repr

def Attempt.raw (a : Attempt) : Bool :=
  match a.last with
  | .unbuilt _ => false
  | _ => true

structure Call where
  method : Method
  attempts : List Attempt
  returned : Bool
  deriving Repr

/- Whose each attempt of the guard is stands beside the guard. -/
structure State where
  guard : Httpx.State
  owners : List Nat
  calls : List Call
  deriving Repr

def newClient (p : Provider) (now : Nat) : State := ⟨newGuard p now,[],[]⟩

inductive Action where
  | guard (a : Httpx.Action)
  | execute (method : Method) (way : Way)
  | redirect (k : Nat) (way : Way)
  | settle (k : Nat) (late : Bool) (body : Option Err)
  | retry (k : Nat) (way : Way)
  | returns (k : Nat) (done : Bool)
  deriving DecidableEq, Repr

def State.trip (s : State) : Way → Trip
  | .unbuilt err => .unbuilt err
  | .unsigned f => .unsigned f
  | .guarded => .through s.guard.attempts.length

def State.send (p : Provider) (s : State) (k : Nat) : Way → Option State
  | .guarded => do
    let guard ← Httpx.step p s.guard .roundTrip
    some {s with guard := guard,owners := s.owners ++ [k]}
  | _ => some s

def State.setCall (s : State) (k : Nat) (c : Call) : State := {s with calls := s.calls.set k c}

def maxRequests : Nat := 10

def redirects (status : Nat) : Bool := status == 301 || status == 302 || status == 303 || status == 307 || status == 308

def timeout : Err := .wraps (.network "Client.Timeout exceeded") (.plain .deadlineExceeded)

/- How the request ended. Past its own deadline net/http puts another error in the place of what it
got; a body that breaks off is an error of the attempt. A panic does not come back. -/
def Trip.ended (g : Httpx.State) (late : Bool) (body : Option Err) : Trip → Option (Except Failure Nat)
  | .unbuilt err => some (.error (.other err))
  | .unsigned f => some (.error (if late then .other timeout else f))
  | .through i =>
    match g.attempts[i]? with
    | some (.returned (.response status)) => some (body.elim (.ok status) (fun err => .error (.other err)))
    | some (.returned (.fails err)) => some (.error (.other (if late then timeout else err)))
    | some (.returned .errCircuitOpen) => some (.error (if late then .other timeout else .errCircuitOpen))
    | some (.returned .errTooManyInFlight) => some (.error (if late then .other timeout else .errTooManyInFlight))
    | _ => none

def Attempt.follows (g : Httpx.State) (a : Attempt) : Bool :=
  match a.result,a.last with
  | none,.through i =>
    match g.attempts[i]? with
    | some (.returned (.response status)) => redirects status && decide (a.hops+1 < maxRequests)
    | _ => false
  | _,_ => false

def begin (t : Trip) : Attempt := ⟨t,0,t.sent,none⟩

def step (p : Provider) (configured : Option Int) (s : State) : Action → Option State
  | .guard .roundTrip => none
  | .guard a => (Httpx.step p s.guard a).map (fun g => {s with guard := g})
  | .execute method way => do
    let u ← s.send p s.calls.length way
    some {u with calls := u.calls ++ [⟨method,[begin (s.trip way)],false⟩]}
  | .redirect k way => do
    let c ← s.calls[k]?
    match c.attempts,way with
    | _,.unbuilt _ => none
    | [],_ => none
    | a::older,way =>
      if a.follows s.guard then do
        let u ← s.send p k way
        let t := s.trip way
        some (u.setCall k {c with attempts := {a with last := t,hops := a.hops+1,sent := a.sent+t.sent}::older})
      else none
  | .settle k late body => do
    let c ← s.calls[k]?
    match c.attempts with
    | [] => none
    | a::older =>
      if a.result.isNone then do
        let r ← a.last.ended s.guard late body
        some (s.setCall k {c with attempts := {a with result := some r}::older})
      else none
  | .retry k way => do
    let c ← s.calls[k]?
    let a ← c.attempts.head?
    let r ← a.result
    if c.returned = false ∧ retryCondition a.raw c.method r ∧ (c.attempts.length : Int) ≤ retries configured then do
      let u ← s.send p k way
      some (u.setCall k {c with attempts := begin (s.trip way)::c.attempts})
    else none
  | .returns k done => do
    let c ← s.calls[k]?
    let a ← c.attempts.head?
    let r ← a.result
    if done ∨ ¬ (retryCondition a.raw c.method r ∧ (c.attempts.length : Int) ≤ retries configured) then
      some (s.setCall k {c with returned := true})
    else none

section Does
variable (p : Provider) (configured : Option Int) (s : State)

inductive Sends (k : Nat) : Way → State → Prop where
  | stopped {way} (short : way ≠ .guarded) (unsent : (s.trip way).sent = 0) : Sends k way s
  | through : Sends k .guarded {s with
      guard := {s.guard with attempts := s.guard.attempts ++ [.waiting]},owners := s.owners ++ [k]}

inductive Does : Action → State → Prop where
  | guard {a g} (other : a ≠ .roundTrip) (one : Httpx.step p s.guard a = some g) :
      Does (.guard a) {s with guard := g}
  | executes {method way u} (sends : Sends s s.calls.length way u) :
      Does (.execute method way) {u with calls := u.calls ++ [⟨method,[begin (s.trip way)],false⟩]}
  | redirects {k way u c a older} (found : s.calls[k]? = some c) (newest : c.attempts = a::older)
      (built : ∀ err, way ≠ .unbuilt err) (follows : a.follows s.guard = true) (sends : Sends s k way u) :
      Does (.redirect k way) (u.setCall k {c with attempts :=
        {a with last := s.trip way,hops := a.hops+1,sent := a.sent+(s.trip way).sent}::older})
  | settles {k late body c a older r} (found : s.calls[k]? = some c) (newest : c.attempts = a::older)
      (going : a.result = none) (ended : a.last.ended s.guard late body = some r) :
      Does (.settle k late body) (s.setCall k {c with attempts := {a with result := some r}::older})
  | retries {k way u c a r} (found : s.calls[k]? = some c) (newest : c.attempts.head? = some a)
      (ended : a.result = some r) (still : c.returned = false) (asked : retryCondition a.raw c.method r = true)
      (left : (c.attempts.length : Int) ≤ Client.retries configured) (sends : Sends s k way u) :
      Does (.retry k way) (u.setCall k {c with attempts := begin (s.trip way)::c.attempts})
  | returns {k done c a r} (found : s.calls[k]? = some c) (newest : c.attempts.head? = some a)
      (ended : a.result = some r) : Does (.returns k done) (s.setCall k {c with returned := true})

end Does

variable {p : Provider} {configured : Option Int} {s t u : State} {a : Action}

theorem sendSends {k : Nat} {way : Way} (ok : s.send p k way = some u) : Sends s k way u := by
  cases way with
  | unbuilt err =>
    cases Option.some.inj ok
    exact .stopped Way.noConfusion rfl
  | unsigned f =>
    cases Option.some.inj ok
    exact .stopped Way.noConfusion rfl
  | guarded =>
    cases Option.some.inj ok
    exact .through

theorem stepDoes (one : step p configured s a = some t) : Does p configured s a t := by
  cases a <;> simp only [step,bind,Option.bind_eq_some_iff] at one
  case guard b =>
    cases b <;> simp only [reduceCtorEq,Option.map_eq_some_iff] at one <;>
      (obtain ⟨g,one,rfl⟩ := one; exact .guard Httpx.Action.noConfusion one)
  case execute method way =>
    obtain ⟨u,sent,last⟩ := one
    cases Option.some.inj last
    exact .executes (sendSends sent)
  case redirect k way =>
    obtain ⟨c,found,last⟩ := one
    split at last <;> try contradiction
    rename_i a older newest built
    split at last <;> try contradiction
    rename_i follows
    obtain ⟨u,sent,last⟩ := Option.bind_eq_some_iff.mp last
    cases Option.some.inj last
    exact .redirects found newest (fun err same => built err same) follows (sendSends sent)
  case settle k late body =>
    obtain ⟨c,found,last⟩ := one
    split at last <;> try contradiction
    rename_i a older newest
    split at last <;> try contradiction
    rename_i going
    obtain ⟨r,ended,last⟩ := Option.bind_eq_some_iff.mp last
    cases Option.some.inj last
    exact .settles found newest (Option.isNone_iff_eq_none.mp going) ended
  case retry k way =>
    obtain ⟨c,found,a,newest,r,ended,last⟩ := one
    split at last <;> try contradiction
    rename_i asked
    obtain ⟨u,sent,last⟩ := Option.bind_eq_some_iff.mp last
    cases Option.some.inj last
    exact .retries found newest ended asked.1 asked.2.1 asked.2.2 (sendSends sent)
  case returns k done =>
    obtain ⟨c,found,a,newest,r,ended,last⟩ := one
    split at last <;> try contradiction
    cases Option.some.inj last
    exact .returns found newest ended

theorem sendReached {k : Nat} {way : Way} {now : Nat} (sends : Sends s k way u)
    (reached : Reachable (Httpx.step p) (newGuard p now) s.guard) :
    Reachable (Httpx.step p) (newGuard p now) u.guard := by
  cases sends with
  | stopped short unsent => exact reached
  | through =>
    obtain ⟨as,ran⟩ := reached
    exact ⟨as ++ [.roundTrip],(runAppend as _).mpr ⟨s.guard,ran,rfl⟩⟩

theorem guardReached {now : Nat} (reached : Reachable (step p configured) (newClient p now) s) :
    Reachable (Httpx.step p) (newGuard p now) s.guard := by
  have keep {s a t} (before : Reachable (Httpx.step p) (newGuard p now) s.guard)
      (one : step p configured s a = some t) : Reachable (Httpx.step p) (newGuard p now) t.guard := by
    cases stepDoes one with
    | @guard a g other next =>
      obtain ⟨as,ran⟩ := before
      exact ⟨as ++ [a],(runAppend as _).mpr ⟨s.guard,ran,runCons.mpr ⟨g,next,rfl⟩⟩⟩
    | executes sends | redirects _ _ _ _ sends | retries _ _ _ _ _ _ sends =>
      have after := sendReached sends before
      exact after
    | settles _ _ _ _ | returns _ _ _ => exact before
  exact reachableKeeps keep ⟨[],rfl⟩ reached

section Guarded
variable {g h : Httpx.State} {b : Httpx.Action} {i : Nat} {r : Returned}

theorem returnedSet {x y : Point} {j : Nat} {points : List Point} (found : points[j]? = some x)
    (going : ∀ r, x ≠ .returned r) (done : points[i]? = some (.returned r)) :
    (points.set j y)[i]? = some (.returned r) := by
  rcases setStays (a := y) (i := j) done with ⟨rfl,-⟩ | ⟨-,same⟩
  · exact absurd (Option.some.inj (found.symm.trans done)) (going r)
  · exact same

theorem returnedStays (one : Httpx.step p g b = some h) (done : g.attempts[i]? = some (.returned r)) :
    h.attempts[i]? = some (.returned r) := by
  cases Httpx.stepDoes one with
  | tick d => exact done
  | enters => exact concatStays done
  | acquires found | givesUp found | unguarded found off | refuses found on | admits found on here notOpen
  | ends found free | records found on => exact returnedSet found (by simp) done

def Stands (g h : Httpx.State) : Prop :=
  ∀ (i : Nat) (r : Returned), g.attempts[i]? = some (.returned r) → h.attempts[i]? = some (.returned r)

theorem endedStays (stays : Stands g h) {last : Trip} {late : Bool} {body : Option Err} {r : Except Failure Nat}
    (ended : last.ended g late body = some r) : last.ended h late body = some r := by
  cases last with
  | unbuilt err | unsigned f => exact ended
  | through i =>
    simp only [Trip.ended] at ended ⊢
    split at ended <;> try contradiction
    all_goals
      rename_i found
      rw [stays i _ found]
      exact ended

theorem placesKept (other : b ≠ .roundTrip) (one : Httpx.step p g b = some h) :
    h.attempts.length = g.attempts.length := by
  cases Httpx.stepDoes one with
  | enters => exact absurd rfl other
  | tick d => rfl
  | acquires found | givesUp found | unguarded found off | refuses found on | admits found on here notOpen
  | ends found free | records found on => exact List.length_set

end Guarded

def Failed : Except Failure Nat → Prop
  | .error (.other _) => True
  | .error _ => False
  | .ok status => status = tooManyRequests ∨ 500 ≤ status

theorem askedFailed {raw : Bool} {method : Method} {r : Except Failure Nat}
    (asked : retryCondition raw method r = true) : Failed r ∧ (raw = true → method.idempotent = true) := by
  unfold retryCondition at asked
  split at asked
  · contradiction
  · contradiction
  · exact ⟨trivial,fun built => by simpa [built] using asked⟩
  · split at asked
    · contradiction
    · rename_i neither
      exact ⟨by simpa [Failed] using asked,fun _ => by simp at neither; exact neither.2⟩

structure Fair (configured : Option Int) (g : Httpx.State) (n : Nat) (c : Call) : Prop where
  few : (c.attempts.length : Int) ≤ retries configured+1
  hops : ∀ a ∈ c.attempts, a.sent ≤ a.hops+1 ∧ a.hops < maxRequests
  unbuilt : ∀ a ∈ c.attempts, a.raw = false → a.sent = 0
  again : ∀ a ∈ c.attempts.tail, ∃ r, a.result = some r ∧ retryCondition a.raw c.method r = true
  ended : ∀ a ∈ c.attempts, ∀ r ∈ a.result, ∃ late body, a.last.ended g late body = some r
  owned : n = (c.attempts.map Attempt.sent).sum

structure Sound (configured : Option Int) (s : State) : Prop where
  fair : ∀ (k : Nat) (c : Call), s.calls[k]? = some c → Fair configured s.guard (s.owners.count k) c
  known : ∀ k ∈ s.owners, k < s.calls.length
  owners : s.owners.length = s.guard.attempts.length

theorem retriesPositive (configured : Option Int) : 0 ≤ retries configured := by
  cases configured with
  | none => decide
  | some n => exact Int.le_max_left 0 n

section Sending
variable {k : Nat} {way : Way}

theorem sendCalls (sends : Sends s k way u) : u.calls = s.calls := by
  cases sends <;> rfl

theorem sendStays (sends : Sends s k way u) : Stands s.guard u.guard := by
  intro i r done
  cases sends with
  | stopped short unsent => exact done
  | through => exact concatStays done

theorem sendCounts (sends : Sends s k way u) (j : Nat) :
    u.owners.count j = s.owners.count j + if k = j then (s.trip way).sent else 0 := by
  cases sends with
  | stopped short unsent => simp [unsent]
  | through =>
    by_cases same : k = j <;> simp [List.count_append,same,State.trip,Trip.sent]

theorem sendKnown (sends : Sends s k way u) {n : Nat} (known : ∀ j ∈ s.owners, j < n) (here : k < n) :
    ∀ j ∈ u.owners, j < n := by
  cases sends with
  | stopped short unsent => exact known
  | through =>
    intro j inside
    rcases List.mem_append.mp inside with before | last
    · exact known j before
    · rwa [List.mem_singleton.mp last]

theorem sendOwners (sends : Sends s k way u) (same : s.owners.length = s.guard.attempts.length) :
    u.owners.length = u.guard.attempts.length := by
  cases sends with
  | stopped short unsent => exact same
  | through => simp [same]

end Sending

theorem fairStays {g h : Httpx.State} {n : Nat} {c : Call} (fair : Fair configured g n c) (stays : Stands g h) :
    Fair configured h n c := by
  have ended (a : Attempt) (inside : a ∈ c.attempts) (r : Except Failure Nat) (is : r ∈ a.result) :
      ∃ late body, a.last.ended h late body = some r := by
    obtain ⟨late,body,was⟩ := fair.ended a inside r is
    exact ⟨late,body,endedStays stays was⟩
  exact ⟨fair.few,fair.hops,fair.unbuilt,fair.again,ended,fair.owned⟩

theorem fairBegins {g : Httpx.State} {n : Nat} {c : Call} {t : Trip} (few : (c.attempts.length : Int) ≤ retries configured)
    (older : c.attempts = [] ∧ n = 0 ∨ Fair configured g n c)
    (asked : ∀ a ∈ c.attempts.head?, ∃ r, a.result = some r ∧ retryCondition a.raw c.method r = true)
    (sent : t.sent ≤ 1) (unsent : (begin t).raw = false → t.sent = 0) :
    Fair configured g (n+t.sent) {c with attempts := begin t::c.attempts} := by
  have size : ((begin t::c.attempts).length : Int) ≤ retries configured+1 := by
    rw [List.length_cons]
    omega
  rcases older with ⟨none,zero⟩ | fair
  · simp only [none,zero]
    refine ⟨none ▸ size,?_,?_,by simp,by simp [begin],by simp [begin]⟩
    · intro a inside
      rw [List.mem_singleton.mp inside]
      exact ⟨sent,Nat.zero_lt_succ 9⟩
    · intro a inside unbuilt
      rw [List.mem_singleton.mp inside] at unbuilt ⊢
      exact unsent unbuilt
  · refine ⟨size,?_,?_,?_,?_,?_⟩
    · intro a inside
      rcases List.mem_cons.mp inside with rfl | before
      · exact ⟨sent,Nat.zero_lt_succ 9⟩
      · exact fair.hops a before
    · intro a inside unbuilt
      rcases List.mem_cons.mp inside with rfl | before
      · exact unsent unbuilt
      · exact fair.unbuilt a before unbuilt
    · intro a inside
      simp only [List.tail_cons] at inside
      cases was : c.attempts with
      | nil => simp [was] at inside
      | cons b rest =>
        rw [was] at inside
        rcases List.mem_cons.mp inside with rfl | before
        · exact asked a (by rw [was]; rfl)
        · exact fair.again a (by rw [was]; exact before)
    · intro a inside r is
      rcases List.mem_cons.mp inside with rfl | before
      · exact nomatch is
      · exact fair.ended a before r is
    · simp only [List.map_cons,List.sum_cons,begin,fair.owned]
      omega

theorem fairGoes {g : Httpx.State} {n m : Nat} {c : Call} {a b : Attempt} {older : List Attempt}
    (fair : Fair configured g n c) (newest : c.attempts = a::older) (hops : b.sent ≤ b.hops+1 ∧ b.hops < maxRequests)
    (unbuilt : b.raw = false → b.sent = 0)
    (ended : ∀ r ∈ b.result, ∃ late body, b.last.ended g late body = some r) (more : m+a.sent = n+b.sent) :
    Fair configured g m {c with attempts := b::older} := by
  have owned := fair.owned
  have again := fair.again
  have inside (x : Attempt) (old : x ∈ older) : x ∈ c.attempts := newest ▸ List.mem_cons_of_mem a old
  rw [newest] at owned again
  refine ⟨?_,?_,?_,again,?_,?_⟩
  · have few := fair.few
    rw [newest] at few
    exact few
  · intro x old
    rcases List.mem_cons.mp old with rfl | before
    · exact hops
    · exact fair.hops x (inside x before)
  · intro x old none
    rcases List.mem_cons.mp old with rfl | before
    · exact unbuilt none
    · exact fair.unbuilt x (inside x before) none
  · intro x old r is
    rcases List.mem_cons.mp old with rfl | before
    · exact ended r is
    · exact fair.ended x (inside x before) r is
  · simp only [List.map_cons,List.sum_cons] at owned ⊢
    omega

theorem soundCall {k : Nat} {c : Call} (sound : Sound configured s) (stays : Stands s.guard u.guard)
    (calls : u.calls = s.calls) (others : ∀ j, j ≠ k → u.owners.count j = s.owners.count j)
    (known : ∀ j ∈ u.owners, j < s.calls.length) (owners : u.owners.length = u.guard.attempts.length)
    (fair : Fair configured u.guard (u.owners.count k) c) : Sound configured (u.setCall k c) := by
  refine ⟨fun j d found => ?_,?_,owners⟩
  · simp only [State.setCall,calls] at found
    rcases setFound found with ⟨rfl,rfl⟩ | ⟨other,before⟩
    · exact fair
    · have still := fairStays (sound.fair j d before) stays
      rw [← others j other] at still
      exact still
  · intro j inside
    simp only [State.setCall,List.length_set,calls]
    exact known j inside

theorem tripSent (s : State) (way : Way) : (s.trip way).sent ≤ 1 := by
  cases way <;> simp [State.trip,Trip.sent]

theorem beginUnsent (s : State) (way : Way) : (begin (s.trip way)).raw = false → (s.trip way).sent = 0 := by
  cases way <;> simp [begin,Attempt.raw,State.trip,Trip.sent]

theorem followsPlace {g : Httpx.State} {b : Attempt} (follows : b.follows g = true) :
    b.result = none ∧ b.hops+1 < maxRequests := by
  unfold Attempt.follows at follows
  split at follows <;> try contradiction
  rename_i going last
  split at follows <;> try contradiction
  exact ⟨going,by simpa using (Bool.and_eq_true_iff.mp follows).2⟩

theorem soundStep (sound : Sound configured s) (one : step p configured s a = some t) : Sound configured t := by
  cases stepDoes one with
  | @guard a g other next =>
    have stays : Stands s.guard g := fun i r done => returnedStays next done
    exact ⟨fun k c found => fairStays (sound.fair k c found) stays,sound.known,
      sound.owners.trans (placesKept other next).symm⟩
  | @executes method way u sends =>
    have calls := sendCalls sends
    have fresh : s.owners.count s.calls.length = 0 :=
      List.count_eq_zero.mpr (fun inside => Nat.lt_irrefl _ (sound.known _ inside))
    have owners := sendOwners sends sound.owners
    refine ⟨fun k c found => ?_,?_,owners⟩
    · simp only [calls] at found
      have counts := sendCounts sends k
      rcases concatFrom found with before | ⟨rfl,rfl⟩
      · have earlier : s.calls.length ≠ k := Nat.ne_of_gt (List.getElem?_eq_some_iff.mp before).1
        rw [if_neg earlier,Nat.add_zero] at counts
        simp only [counts]
        exact fairStays (sound.fair k c before) (sendStays sends)
      · rw [if_pos rfl,fresh] at counts
        simp only [counts]
        exact fairBegins (c := ⟨method,[],false⟩) (retriesPositive configured) (.inl ⟨rfl,rfl⟩) (by simp)
          (tripSent s way) (beginUnsent s way)
    · intro k inside
      rw [List.length_append,List.length_singleton,calls]
      have before (j : Nat) (known : j ∈ s.owners) : j < s.calls.length+1 := Nat.lt_succ_of_lt (sound.known j known)
      exact sendKnown sends before (Nat.lt_succ_self _) k inside
  | @redirects k way u c b older found newest built follows sends =>
    have short := (List.getElem?_eq_some_iff.mp found).1
    have fair := fairStays (sound.fair k c found) (sendStays sends)
    have counts := sendCounts sends k
    rw [if_pos rfl] at counts
    obtain ⟨going,room⟩ := followsPlace follows
    have hops := fair.hops b (newest ▸ List.mem_cons_self)
    have sent := tripSent s way
    have others (j : Nat) (other : j ≠ k) : u.owners.count j = s.owners.count j := by
      have same := sendCounts sends j
      rwa [if_neg (Ne.symm other)] at same
    refine soundCall sound (sendStays sends) (sendCalls sends) others (sendKnown sends sound.known short)
      (sendOwners sends sound.owners) (fairGoes fair newest ⟨?_,room⟩ ?_ ?_ ?_)
    · simp only
      omega
    · intro none
      cases way with
      | unbuilt err => exact absurd rfl (built err)
      | unsigned f | guarded => simp [Attempt.raw,State.trip] at none
    · simp [going]
    · simp only
      omega
  | @settles k late body c b older r found newest going ended =>
    have short := (List.getElem?_eq_some_iff.mp found).1
    have fair := sound.fair k c found
    have inside : b ∈ c.attempts := newest ▸ List.mem_cons_self
    refine soundCall sound (fun _ _ done => done) rfl (fun _ _ => rfl) sound.known sound.owners
      (fairGoes fair newest (fair.hops b inside) (fair.unbuilt b inside) ?_ rfl)
    intro x is
    cases Option.some.inj is
    exact ⟨late,body,ended⟩
  | @retries k way u c b r found newest ended still asked left sends =>
    have short := (List.getElem?_eq_some_iff.mp found).1
    have fair := fairStays (sound.fair k c found) (sendStays sends)
    have counts := sendCounts sends k
    rw [if_pos rfl] at counts
    have others (j : Nat) (other : j ≠ k) : u.owners.count j = s.owners.count j := by
      have same := sendCounts sends j
      rwa [if_neg (Ne.symm other)] at same
    have again (x : Attempt) (is : x ∈ c.attempts.head?) : ∃ r, x.result = some r ∧ retryCondition x.raw c.method r = true := by
      cases Option.some.inj (newest.symm.trans is)
      exact ⟨r,ended,asked⟩
    refine soundCall sound (sendStays sends) (sendCalls sends) others (sendKnown sends sound.known short)
      (sendOwners sends sound.owners) ?_
    rw [counts]
    exact fairBegins left (.inr fair) again (tripSent s way) (beginUnsent s way)
  | @returns k done c b r found newest ended =>
    have fair := sound.fair k c found
    exact soundCall sound (fun _ _ done => done) rfl (fun _ _ => rfl) sound.known sound.owners
      ⟨fair.few,fair.hops,fair.unbuilt,fair.again,fair.ended,fair.owned⟩

theorem startSound (p : Provider) (configured : Option Int) (now : Nat) : Sound configured (newClient p now) :=
  ⟨by simp [newClient],by simp [newClient],rfl⟩

section Bounds
variable {g : Httpx.State} {n : Nat} {c : Call}

theorem unsentOlder (fair : Fair configured g n c) (unrepeated : c.method.idempotent = false) :
    ∀ a ∈ c.attempts.tail, a.sent = 0 := by
  intro a older
  obtain ⟨r,-,asked⟩ := fair.again a older
  refine fair.unbuilt a (List.mem_of_mem_tail older) ?_
  cases built : a.raw with
  | false => rfl
  | true => exact absurd ((askedFailed asked).2 built) (by simp [unrepeated])

theorem sentOnce (fair : Fair configured g n c) (unrepeated : c.method.idempotent = false) {m : Nat}
    (each : ∀ a ∈ c.attempts, a.sent ≤ m) : n ≤ m := by
  have none := unsentOlder fair unrepeated
  rw [fair.owned]
  cases all : c.attempts with
  | nil => exact Nat.zero_le _
  | cons a older =>
    rw [all,List.tail_cons] at none
    have rest : (older.map Attempt.sent).sum = 0 := List.sum_eq_zero fun n inside => by
      obtain ⟨b,member,rfl⟩ := List.mem_map.mp inside
      exact none b member
    have here := each a (all ▸ List.mem_cons_self)
    rw [List.map_cons,List.sum_cons]
    omega

theorem attemptSent (fair : Fair configured g n c) : ∀ a ∈ c.attempts, a.sent ≤ maxRequests := by
  intro a inside
  obtain ⟨sent,hops⟩ := fair.hops a inside
  omega

theorem sentWithin (fair : Fair configured g n c) : (n : Int) ≤ 10*(retries configured+1) := by
  have total := List.sum_le_card_nsmul (c.attempts.map Attempt.sent) maxRequests fun n inside => by
    obtain ⟨a,member,rfl⟩ := List.mem_map.mp inside
    exact attemptSent fair a member
  rw [← fair.owned,List.length_map,smul_eq_mul,maxRequests] at total
  have few := fair.few
  omega

end Bounds

def retried : State where
  guard := ⟨0,none,0,[.returned (.response 503),.returned (.response 200)]⟩
  owners := [0,0]
  calls := [⟨.get,[⟨.through 1,0,1,some (.ok 200)⟩,⟨.through 0,0,1,some (.ok 503)⟩],true⟩]

end DevkitCommon.Httpx.Client
