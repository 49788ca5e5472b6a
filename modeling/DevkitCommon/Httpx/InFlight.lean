import DevkitCommon.Httpx.Recovery

/-! What is on its way to a provider at one time. The slots taken are those of the attempts that
hold one, an open circuit lets nothing through until it has been open for its time, and a half-open
one lets a single probe through. -/
namespace DevkitCommon.Httpx
open Breaker Machine

def Point.holds : Point → Bool
  | .holding | .sent _ => true
  | .waiting | .returned _ => false

def Point.sentIn (generation : Nat) : Point → Bool
  | .sent (some ticket) => ticket == generation
  | _ => false

section Slots
variable {p : Provider} {s t : State} {a : Action}

structure Slotted (p : Provider) (s : State) : Prop where
  counted : s.sem = s.attempts.countP Point.holds
  within : 0 < maxConcurrent p → (s.sem : Int) ≤ maxConcurrent p

theorem slottedMoved {i : Nat} {x y : Point} (cb : Option Circuit) (slotted : Slotted p s)
    (found : s.attempts[i]? = some x) (same : y.holds = x.holds) :
    Slotted p ({s with cb := cb}.setAttempt i y) := by
  have moved := countMoved (q := Point.holds) (x := y) found
  rw [same] at moved
  have counted := slotted.counted
  exact ⟨by simp only [State.setAttempt]; omega,slotted.within⟩

theorem slottedLeft {i : Nat} {x : Point} {r : Returned} (cb : Option Circuit) (slotted : Slotted p s)
    (found : s.attempts[i]? = some x) (holds : x.holds = true) : Slotted p ({s with cb := cb}.leave i r) := by
  have moved := countMoved (q := Point.holds) (x := .returned r) found
  rw [holds] at moved
  simp only [Point.holds,Bool.toNat_true,Bool.toNat_false] at moved
  have counted := slotted.counted
  have within := slotted.within
  exact ⟨by simp only [State.leave,State.setAttempt]; omega,by simp only [State.leave,State.setAttempt]; omega⟩

theorem slottedStep (slotted : Slotted p s) (one : step p s a = some t) : Slotted p t := by
  have does := stepDoes one
  cases does with
  | tick d => exact ⟨slotted.counted,slotted.within⟩
  | enters =>
    have counted := slotted.counted
    exact ⟨by simp [counted,List.countP_append,Point.holds],slotted.within⟩
  | @acquires i found =>
    have moved := countMoved (q := Point.holds) (x := .holding) found
    simp only [Point.holds,Bool.toNat_true,Bool.toNat_false] at moved
    have counted := slotted.counted
    simp only [step,found,bind,Option.bind] at one
    split at one <;> try contradiction
    rename_i room
    exact ⟨by simp only [State.setAttempt]; omega,by simp only [State.setAttempt]; omega⟩
  | givesUp found => exact slottedMoved s.cb slotted found rfl
  | unguarded found off => exact slottedMoved s.cb slotted found rfl
  | refuses found on => exact slottedLeft _ slotted found rfl
  | admits found on here notOpen => exact slottedMoved _ slotted found rfl
  | ends found free => exact slottedLeft s.cb slotted found rfl
  | records found on => exact slottedLeft _ slotted found rfl

end Slots

section Probes
variable {p : Provider} {s t : State} {a : Action}

def Probing (s : State) : Prop := ∀ c ∈ s.cb, c.phase = .stateHalfOpen →
  s.attempts.countP (Point.sentIn c.generation) ≤ c.counts.requests ∧ c.counts.requests ≤ 1

theorem noneSent (kept : Kept s) {c : Circuit} (on : s.cb = some c) {g : Nat}
    (apart : c.generation < g ∨ c.generation = g ∧ c.phase = .stateOpen) :
    s.attempts.countP (Point.sentIn g) = 0 := by
  refine List.countP_eq_zero.mpr (fun x inside sent => ?_)
  obtain ⟨i,found⟩ := List.mem_iff_getElem?.mp inside
  unfold Point.sentIn at sent
  split at sent <;> try contradiction
  rename_i ticket
  have same : ticket = g := by simpa using sent
  subst same
  rcases kept.issued c on i ticket found with earlier | ⟨here,notOpen⟩
  · omega
  · rcases apart with later | ⟨-,opened⟩
    · omega
    · exact absurd opened notOpen

theorem countAfter {i : Nat} {x y : Point} {g : Nat} (found : s.attempts[i]? = some x)
    (unsent : y.sentIn g = false) : (s.attempts.set i y).countP (Point.sentIn g) ≤ s.attempts.countP (Point.sentIn g) := by
  have moved := countMoved (q := Point.sentIn g) (x := y) found
  rw [unsent] at moved
  simp only [Bool.toNat_false] at moved
  omega

theorem probingCurrent {c : Circuit} (kept : Kept s) (probing : Probing s) (on : s.cb = some c)
    (halfOpen : (currentState (newSettings p) c s.now).phase = .stateHalfOpen) :
    s.attempts.countP (Point.sentIn (currentState (newSettings p) c s.now).generation) ≤
      (currentState (newSettings p) c s.now).counts.requests ∧
    (currentState (newSettings p) c s.now).counts.requests ≤ 1 := by
  rcases currentCases (newSettings p) c s.now with same | ⟨opened,fresh⟩
  · rw [same] at halfOpen ⊢
    exact probing c on halfOpen
  · rw [fresh]
    exact ⟨Nat.le_of_eq (noneSent kept on (.inl (Nat.lt_succ_self _))),Nat.zero_le _⟩

theorem probingMoved {i : Nat} {x y : Point} (probing : Probing s) (found : s.attempts[i]? = some x)
    (unsent : ∀ g, y.sentIn g = false) {sem : Nat} : Probing {s.setAttempt i y with sem := sem} := by
  intro c on halfOpen
  obtain ⟨few,one⟩ := probing c on halfOpen
  exact ⟨Nat.le_trans (countAfter found (unsent _)) few,one⟩

theorem probingStep (kept : Kept s) (probing : Probing s) (one : step p s a = some t) : Probing t := by
  have does := stepDoes one
  cases does with
  | tick d => exact probing
  | enters =>
    intro c on halfOpen
    obtain ⟨few,single⟩ := probing c on halfOpen
    exact ⟨by simpa [List.countP_append,Point.sentIn] using few,single⟩
  | acquires found => exact probingMoved probing found (fun _ => rfl)
  | givesUp found => exact probingMoved probing found (fun _ => rfl)
  | unguarded found off => exact probingMoved probing found (fun _ => rfl)
  | ends found free => exact probingMoved probing found (fun _ => rfl)
  | refuses found on =>
    intro d now halfOpen
    cases Option.some.inj now
    obtain ⟨few,single⟩ := probingCurrent kept probing on halfOpen
    exact ⟨Nat.le_trans (countAfter found rfl) few,single⟩
  | @admits i c d found on here notOpen =>
    intro e now halfOpen
    cases Option.some.inj now
    subst here
    obtain ⟨few,single⟩ := probingCurrent kept probing on halfOpen
    have room : (currentState (newSettings p) c s.now).counts.requests < 1 := by
      simp only [step,found,bind,Option.bind,on,beforeRequest,if_neg notOpen] at one
      refine Nat.lt_of_not_le (fun full => ?_)
      rw [if_pos ⟨halfOpen,full⟩] at one
      have same := congrArg (fun u : State => u.attempts[i]?) (Option.some.inj one)
      simp [State.leave,State.setAttempt,List.getElem?_set_self (List.getElem?_eq_some_iff.mp found).1] at same
    have moved := countMoved (q := Point.sentIn (currentState (newSettings p) c s.now).generation)
      (x := .sent (some (currentState (newSettings p) c s.now).generation)) found
    simp only [Point.sentIn,beq_self_eq_true,Bool.toNat_true,Bool.toNat_false] at moved
    simp only [State.setAttempt,Counts.onRequest]
    omega
  | @records i o ticket c r found on =>
    intro d now halfOpen
    cases Option.some.inj now
    have records := afterRecords (newSettings p) s.now (success o) (kept.issued c on i ticket found)
    generalize afterRequest (newSettings p) c s.now ticket (success o) = d at records halfOpen ⊢
    generalize success o = good at records
    have left (g : Nat) := countAfter (y := .returned r) (g := g) found rfl
    cases records with
    | ignored stale =>
      obtain ⟨few,single⟩ := probingCurrent kept probing on halfOpen
      exact ⟨Nat.le_trans (left _) few,single⟩
    | counts here phase => exact Phase.noConfusion (phase.symm.trans halfOpen)
    | probes here phase few => exact absurd few (by simp [newSettings])
    | closes here phase enough => exact Phase.noConfusion halfOpen
    | fails here phase => exact Phase.noConfusion (phase.symm.trans halfOpen)
    | trips here phase => exact Phase.noConfusion halfOpen

end Probes

section Runs
variable {p : Provider} {now : Nat} {s : State}

theorem startSlotted (p : Provider) (now : Nat) : Slotted p (newGuard p now) :=
  ⟨rfl,fun limited => by simpa [newGuard] using Int.le_of_lt limited⟩

theorem startProbing (p : Provider) (now : Nat) : Probing (newGuard p now) := by
  intro c on halfOpen
  simp only [newGuard,Option.mem_def,Option.ite_none_right_eq_some,Option.some.injEq] at on
  rw [← on.2] at halfOpen
  exact Phase.noConfusion halfOpen

theorem reachedKept (reached : Reachable (step p) (newGuard p now) s) : Kept s ∧ Slotted p s ∧ Probing s := by
  have keep {s a t} (holds : Kept s ∧ Slotted p s ∧ Probing s) (one : step p s a = some t) :
      Kept t ∧ Slotted p t ∧ Probing t :=
    ⟨keeps holds.1 (stepDoes one),slottedStep holds.2.1 one,probingStep holds.1 holds.2.2 one⟩
  exact reachableKeeps keep ⟨startKept p now,startSlotted p now,startProbing p now⟩ reached

theorem inFlightBounded (reached : Reachable (step p) (newGuard p now) s) :
    s.sem = s.attempts.countP Point.holds ∧
    (0 < maxConcurrent p → (s.attempts.countP Point.holds : Int) ≤ maxConcurrent p) ∧
    ∀ c ∈ s.cb, (c.phase = .stateHalfOpen → s.attempts.countP (Point.sentIn c.generation) ≤ 1) ∧
      (c.phase = .stateOpen → s.attempts.countP (Point.sentIn c.generation) = 0) := by
  obtain ⟨kept,slotted,probing⟩ := reachedKept reached
  have within (limited : 0 < maxConcurrent p) : (s.attempts.countP Point.holds : Int) ≤ maxConcurrent p := by
    have bound := slotted.within limited
    rwa [slotted.counted] at bound
  have probes (c : Circuit) (on : c ∈ s.cb) (halfOpen : c.phase = .stateHalfOpen) :
      s.attempts.countP (Point.sentIn c.generation) ≤ 1 := by
    obtain ⟨few,single⟩ := probing c on halfOpen
    exact Nat.le_trans few single
  exact ⟨slotted.counted,within,fun c on => ⟨probes c on,fun opened => noneSent kept on (.inr ⟨rfl,opened⟩)⟩⟩

def sandbox : Provider := ⟨some 2,some 1,0⟩

def probed : State :=
  ⟨30000000001,some ⟨.stateHalfOpen,2,⟨1,0,0⟩,0⟩,1,[.returned (.response 500),.sent (some 2),.returned .errCircuitOpen]⟩

theorem probedAlone : probed.sem = probed.attempts.countP Point.holds ∧
    (0 < maxConcurrent sandbox → (probed.attempts.countP Point.holds : Int) ≤ maxConcurrent sandbox) ∧
    ∀ c ∈ probed.cb, (c.phase = .stateHalfOpen → probed.attempts.countP (Point.sentIn c.generation) ≤ 1) ∧
      (c.phase = .stateOpen → probed.attempts.countP (Point.sentIn c.generation) = 0) := by
  have ran : run (step sandbox) (newGuard sandbox 0) [.roundTrip,.acquire 0,.execute 0,.finish 0 (.response 500),
      .tick 30000000001,.roundTrip,.roundTrip,.acquire 1,.acquire 2,.execute 1,.execute 2] = some probed := by rfl
  exact inFlightBounded ⟨_,ran⟩

end Runs

section Silence
variable {p : Provider} {now : Nat} {s t u : State} {a : Action}

def Quiet (before : Option Point) : Point → Prop
  | .waiting | .holding => True
  | .sent ticket => before = some (.sent ticket)
  | .returned r => before = some (.returned r) ∨ (∃ ticket, before = some (.sent ticket)) ∨
      r = .errCircuitOpen ∨ r = .errTooManyInFlight

structure Silent (c : Circuit) (t u : State) : Prop where
  opened : u.cb = some c
  quiet : ∀ (i : Nat) (x : Point), u.attempts[i]? = some x → Quiet t.attempts[i]? x

theorem clockGrows (does : Does p s a t) : s.now ≤ t.now := by
  cases does <;> simp [State.leave,State.setAttempt]

theorem opensFor (kept : Kept s) (does : Does p s a t) (was : ∀ c ∈ s.cb, c.phase ≠ .stateOpen) {d : Circuit}
    (on : t.cb = some d) (opened : d.phase = .stateOpen) : d.expiry = s.now+(newSettings p).timeout := by
  have still (c : Circuit) (before : s.cb = some c) : currentState (newSettings p) c s.now = c := by
    rcases currentCases (newSettings p) c s.now with same | ⟨open',-⟩
    · exact same
    · exact absurd open' (was c before)
  cases does with
  | tick _ | enters | acquires _ | givesUp _ | unguarded _ _ | ends _ _ => exact absurd opened (was d on)
  | @refuses i c r found before =>
    cases Option.some.inj on
    exact absurd (still c before ▸ opened) (was c before)
  | @admits i c e found before here notOpen =>
    cases Option.some.inj on
    exact absurd opened notOpen
  | @records i o ticket c r found before =>
    have records := afterRecords (newSettings p) s.now (success o) (kept.issued c before i ticket found)
    have same : d = afterRequest (newSettings p) c s.now ticket (success o) := (Option.some.inj on).symm
    rw [← same] at records
    generalize success o = good at records
    cases records with
    | ignored stale => exact absurd (still c before ▸ opened) (was c before)
    | counts here phase | fails here phase | probes here phase few => exact absurd opened (was c before)
    | closes here phase enough => exact Phase.noConfusion opened
    | trips here phase => rfl

theorem openRefuses {c : Circuit} {i : Nat} (on : s.cb = some c) (opened : c.phase = .stateOpen)
    (soon : s.now ≤ c.expiry) (one : step p s (.execute i) = some t) : t = s.leave i .errCircuitOpen := by
  have stays : currentState (newSettings p) c s.now = c := if_neg (fun past => Nat.not_lt.mpr soon past.2)
  simp only [step,bind,Option.bind_eq_some_iff] at one
  obtain ⟨point,found,last⟩ := one
  split at last <;> try contradiction
  simp only [on,beforeRequest,stays,if_pos opened,answer,Option.some.injEq] at last
  rw [← last,← on]

theorem quietSet {c : Circuit} {i : Nat} {x : Point} (sem : Nat) (silent : Silent c t u)
    (quiet : Quiet t.attempts[i]? x) : Silent c t {u.setAttempt i x with sem := sem} := by
  refine ⟨silent.opened,fun j y found => ?_⟩
  rcases setFound found with ⟨rfl,rfl⟩ | ⟨-,before⟩
  · exact quiet
  · exact silent.quiet j y before

theorem openIgnores {c : Circuit} {ticket : Nat} {good : Bool} (opened : c.phase = .stateOpen)
    (soon : u.now ≤ c.expiry) : afterRequest (newSettings p) c u.now ticket good = c := by
  have stays : currentState (newSettings p) c u.now = c := if_neg (fun past => Nat.not_lt.mpr soon past.2)
  cases good <;> simp [afterRequest,stays,onSuccess,onFailure,opened]

theorem silentStep {v : State} {c : Circuit} (opened : c.phase = .stateOpen) (silent : Silent c t u)
    (soon : u.now ≤ c.expiry) (one : step p u a = some v) : Silent c t v := by
  have does := stepDoes one
  have wasSent {i : Nat} {ticket : Option Nat} (found : u.attempts[i]? = some (.sent ticket)) (r : Returned) :
      Quiet t.attempts[i]? (.returned r) := .inr (.inl ⟨ticket,silent.quiet i _ found⟩)
  cases does with
  | tick d => exact ⟨silent.opened,silent.quiet⟩
  | enters =>
    refine ⟨silent.opened,fun i x found => ?_⟩
    rcases concatFrom found with before | ⟨-,rfl⟩
    · exact silent.quiet i x before
    · trivial
  | acquires found => exact quietSet _ silent trivial
  | givesUp found => exact quietSet u.sem silent (.inr (.inr (.inr rfl)))
  | unguarded found off => cases off.symm.trans silent.opened
  | @refuses i d r found on =>
    rw [openRefuses silent.opened opened soon one]
    exact quietSet _ silent (.inr (.inr (.inl rfl)))
  | @admits i d e found on here notOpen =>
    have left := openRefuses silent.opened opened soon one
    rw [left]
    exact quietSet _ silent (.inr (.inr (.inl rfl)))
  | ends found free => exact quietSet _ silent (wasSent found _)
  | @records i o ticket d r found on =>
    cases Option.some.inj (on.symm.trans silent.opened)
    rw [openIgnores opened soon,← on]
    exact quietSet _ silent (wasSent found r)

theorem openSilent {back : List Action} (reached : Reachable (step p) (newGuard p now) s)
    (one : step p s a = some t) (was : ∀ c ∈ s.cb, c.phase ≠ .stateOpen) {c : Circuit} (on : t.cb = some c)
    (opened : c.phase = .stateOpen) (ok : run (step p) t back = some u)
    (soon : u.now ≤ s.now+(newSettings p).timeout) :
    u.cb = some c ∧ ∀ (i : Nat) (x : Point), u.attempts[i]? = some x → Quiet t.attempts[i]? x := by
  obtain ⟨kept,-,-⟩ := reachedKept reached
  have expiry := opensFor kept (stepDoes one) was on opened
  have start : Silent c t t := by
    refine ⟨on,fun i x found => ?_⟩
    rw [found]
    cases x with
    | waiting | holding => trivial
    | sent ticket => rfl
    | returned r => exact .inl rfl
  have keep {v w : State} {b : Action} (silent : v.now ≤ c.expiry → Silent c t v) (one : step p v b = some w) :
      w.now ≤ c.expiry → Silent c t w := by
    intro later
    have earlier := Nat.le_trans (clockGrows (stepDoes one)) later
    exact silentStep opened (silent earlier) earlier one
  have silent := reachableKeeps keep (fun _ => start) ⟨back,ok⟩ (by rw [expiry]; exact soon)
  exact ⟨silent.opened,silent.quiet⟩

def failing : State := ⟨0,some ⟨.stateClosed,0,⟨2,0,0⟩,0⟩,2,[.sent (some 0),.sent (some 0)]⟩

def tripped : Circuit := ⟨.stateOpen,1,{},30000000000⟩

def refusing : State :=
  ⟨7,some tripped,0,[.returned (.response 500),.returned (.response 200),.returned .errCircuitOpen]⟩

theorem refusedThird : refusing.cb = some tripped ∧ ∀ (i : Nat) (x : Point), refusing.attempts[i]? = some x →
    Quiet [Point.returned (.response 500),.sent (some 0)][i]? x := by
  have before : run (step sandbox) (newGuard sandbox 0) [.roundTrip,.roundTrip,.acquire 0,.acquire 1,.execute 0,
      .execute 1] = some failing := by rfl
  have after : run (step sandbox) ⟨0,some tripped,1,[.returned (.response 500),.sent (some 0)]⟩
      [.roundTrip,.finish 1 (.response 200),.tick 7,.acquire 2,.execute 2] = some refusing := by rfl
  exact openSilent (a := .finish 0 (.response 500)) ⟨_,before⟩ rfl (by simp [failing]) rfl rfl after (by decide)

end Silence

end DevkitCommon.Httpx
