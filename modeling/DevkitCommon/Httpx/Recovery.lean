import DevkitCommon.Httpx.Guard

/-! Which attempts count as a recovery of the provider. The guard asks the errors it knows:
one that is no net.Error, an EOF, a certificate it refuses or a cancellation of the caller,
counts as a success. -/
namespace DevkitCommon.Httpx
open Breaker Machine

def Healthy (s : State) (c : Circuit) : Action → Prop
  | .finish i (.response status) =>
    status < 500 ∧ status ≠ tooManyRequests ∧ s.attempts[i]? = some (.sent (some c.generation))
  | _ => False
instance (s c a) : Decidable (Healthy s c a) := by unfold Healthy; split <;> infer_instance

def Answered : Action → Prop
  | .finish _ (.response _) => True
  | _ => False
instance (a) : Decidable (Answered a) := by unfold Answered; split <;> infer_instance

def Upheld (s : State) (a : Action) (c d : Circuit) : Prop :=
  (c.phase ≠ .stateClosed → d.phase = .stateClosed → Healthy s c a) ∧
  (¬ Answered a → c.counts.consecutiveFailures ≤ d.counts.consecutiveFailures ∨ d.phase = .stateOpen)
instance (s a c d) : Decidable (Upheld s a c d) := by unfold Upheld; infer_instance

def Recovers (p : Provider) (s : State) (a : Action) : Prop :=
  match step p s a with
  | none => True
  | some t => ∀ c ∈ s.cb, ∀ d ∈ t.cb, Upheld s a c d
instance (p s a) : Decidable (Recovers p s a) := by unfold Recovers; split <;> infer_instance

/- An attempt that ends with an error the guard does not know as a network error ends when
nothing depends on it: the circuit has changed since it was admitted, or it is closed with no
failure counted. -/
def Classified (s : State) : Action → Prop
  | .finish i (.fails err) => isNetworkError err = true ∨
      ∀ c ∈ s.cb, s.attempts[i]? = some (.sent (some c.generation)) →
        c.phase = .stateClosed ∧ c.counts.consecutiveFailures = 0
  | _ => True
instance (s a) : Decidable (Classified s a) := by unfold Classified; split <;> infer_instance

section Does
variable (p : Provider) (s : State)

inductive Does : Action → State → Prop where
  | tick (d : Nat) : Does (.tick d) {s with now := s.now+d}
  | enters : Does .roundTrip {s with attempts := s.attempts ++ [.waiting]}
  | acquires {i} (found : s.attempts[i]? = some .waiting) :
      Does (.acquire i) ({s with sem := s.sem+1}.setAttempt i .holding)
  | givesUp {i} (found : s.attempts[i]? = some .waiting) :
      Does (.done i) (s.setAttempt i (.returned .errTooManyInFlight))
  | unguarded {i} (found : s.attempts[i]? = some .holding) (off : s.cb = none) :
      Does (.execute i) (s.setAttempt i (.sent none))
  | refuses {i c r} (found : s.attempts[i]? = some .holding) (on : s.cb = some c) :
      Does (.execute i) ({s with cb := some (currentState (newSettings p) c s.now)}.leave i r)
  | admits {i c d} (found : s.attempts[i]? = some .holding) (on : s.cb = some c)
      (here : d = currentState (newSettings p) c s.now) (notOpen : d.phase ≠ .stateOpen) :
      Does (.execute i) ({s with cb := some {d with counts := d.counts.onRequest}}.setAttempt i
        (.sent (some d.generation)))
  | ends {i o ticket r} (found : s.attempts[i]? = some (.sent ticket)) (free : s.cb = none ∨ ticket = none) :
      Does (.finish i o) (s.leave i r)
  | records {i o ticket c r} (found : s.attempts[i]? = some (.sent (some ticket))) (on : s.cb = some c) :
      Does (.finish i o)
        ({s with cb := some (afterRequest (newSettings p) c s.now ticket (success o))}.leave i r)

end Does

variable {p : Provider} {s t : State} {a : Action}

theorem stepDoes (one : step p s a = some t) : Does p s a t := by
  cases a <;> simp only [step,bind,Option.bind_eq_some_iff,Option.some.injEq] at one
  case tick d => subst one; exact .tick d
  case roundTrip => subst one; exact .enters
  case acquire i =>
    obtain ⟨point,found,last⟩ := one
    split at last <;> try contradiction
    split at last <;> try contradiction
    cases Option.some.inj last
    exact .acquires found
  case done i =>
    obtain ⟨point,found,last⟩ := one
    split at last <;> try contradiction
    split at last <;> try contradiction
    cases Option.some.inj last
    exact .givesUp found
  case execute i =>
    obtain ⟨point,found,last⟩ := one
    split at last <;> try contradiction
    split at last
    · rename_i off
      cases Option.some.inj last
      exact .unguarded found off
    · rename_i c on
      rcases beforeCases (newSettings p) c s.now with ⟨r,refused⟩ | ⟨notOpen,admitted⟩
      · simp only [refused,Option.some.injEq] at last
        subst last
        exact .refuses found on
      · simp only [admitted,Option.some.injEq] at last
        subst last
        exact .admits found on rfl notOpen
  case finish i o =>
    obtain ⟨point,found,last⟩ := one
    split at last <;> try contradiction
    rename_i ticket
    cases on : s.cb with
    | none =>
      simp only [on,Option.some.injEq] at last
      subst last
      exact on ▸ .ends found (.inl on)
    | some c =>
      cases ticket with
      | none =>
        simp only [on,Option.some.injEq] at last
        subst last
        exact on ▸ .ends found (.inr rfl)
      | some ticket =>
        simp only [on,Option.some.injEq] at last
        subst last
        exact .records found on

structure Kept (s : State) : Prop where
  issued : ∀ c ∈ s.cb, ∀ (i ticket : Nat), s.attempts[i]? = some (.sent (some ticket)) → Issued c ticket
  calm : ∀ c ∈ s.cb, Calm c

theorem sentBefore {i j ticket : Nat} {x : Point} (unsent : ∀ n, x ≠ .sent (some n))
    (found : (s.attempts.set i x)[j]? = some (.sent (some ticket))) :
    s.attempts[j]? = some (.sent (some ticket)) := by
  rcases setFound found with ⟨-,same⟩ | ⟨-,before⟩
  · exact absurd same.symm (unsent ticket)
  · exact before

theorem keeps (kept : Kept s) (does : Does p s a t) : Kept t := by
  cases does with
  | tick d => exact ⟨kept.issued,kept.calm⟩
  | enters =>
    refine ⟨fun c on i ticket found => ?_,kept.calm⟩
    rcases concatFrom found with before | ⟨-,same⟩
    · exact kept.issued c on i ticket before
    · exact Point.noConfusion same
  | @acquires i found => exact ⟨fun c on j ticket sent => kept.issued c on j ticket (sentBefore (by simp) sent),kept.calm⟩
  | givesUp found => exact ⟨fun c on j ticket sent => kept.issued c on j ticket (sentBefore (by simp) sent),kept.calm⟩
  | unguarded found off => exact ⟨fun c on j ticket sent => kept.issued c on j ticket (sentBefore (by simp) sent),kept.calm⟩
  | @refuses i c r found on =>
    constructor
    · intro d now j ticket sent
      cases Option.some.inj now
      exact issuedCurrent (kept.issued c on j ticket (sentBefore (by simp) sent))
    · intro d now
      cases Option.some.inj now
      exact calmCurrent (kept.calm c on)
  | @admits i c d found on here notOpen =>
    constructor
    · intro e now j ticket sent
      cases Option.some.inj now
      rcases setFound sent with ⟨-,same⟩ | ⟨-,before⟩
      · cases same
        exact .inr ⟨rfl,notOpen⟩
      · have issued : Issued d ticket := here ▸ issuedCurrent (kept.issued c on j ticket before)
        exact issued
    · intro e now
      cases Option.some.inj now
      exact fun opened => absurd opened notOpen
  | ends found free => exact ⟨fun c on j ticket sent => kept.issued c on j ticket (sentBefore (by simp) sent),kept.calm⟩
  | @records i o ticket c r found on =>
    have records := afterRecords (newSettings p) s.now (success o) (kept.issued c on i ticket found)
    constructor
    · intro d now j other sent
      cases Option.some.inj now
      exact issuedAfter records (kept.issued c on j other (sentBefore (by simp) sent))
    · intro d now
      cases Option.some.inj now
      exact calmAfter records (kept.calm c on)

theorem startKept (p : Provider) (now : Nat) : Kept (newGuard p now) := by
  constructor
  · intro c on i ticket found
    simp [newGuard] at found
  · intro c on
    simp only [newGuard,Option.mem_def,Option.ite_none_right_eq_some,Option.some.injEq] at on
    exact fun opened => absurd (on.2 ▸ opened) (by decide)

theorem sameUpheld {c : Circuit} : Upheld s a c c :=
  ⟨fun was is => absurd is was,fun _ => .inl (Nat.le_refl _)⟩

theorem seenUpheld {c d : Circuit} {n : Counts} (calm : Calm c)
    (seen : d = {currentState (newSettings p) c s.now with counts := n})
    (kept : n.consecutiveFailures = (currentState (newSettings p) c s.now).counts.consecutiveFailures) :
    Upheld s a c d := by
  subst seen
  constructor
  · intro was closed
    rcases currentCases (newSettings p) c s.now with same | ⟨-,fresh⟩
    · exact absurd (same ▸ closed) was
    · rw [fresh] at closed
      exact Phase.noConfusion closed
  · intro _
    exact .inl (kept ▸ failuresCurrent calm)

theorem successAnswered {o : Outcome} (healthy : success o = true) :
    (∃ status, o = .response status ∧ status < 500 ∧ status ≠ tooManyRequests) ∨
    ∃ err, o = .fails err ∧ isNetworkError err = false := by
  cases o with
  | response status =>
    simp only [success,attempt] at healthy
    split at healthy
    · exact absurd healthy (by simp [isSuccessful])
    · rename_i good
      exact .inl ⟨status,rfl,by omega,by omega⟩
  | fails err =>
    simp only [success,attempt,Option.elim_some,isSuccessful,Bool.not_eq_true'] at healthy
    exact .inr ⟨err,rfl,healthy⟩
  | panics => exact absurd healthy (by simp [success,attempt])

theorem classifiedUpheld {c d : Circuit} (kept : Kept s) (does : Does p s a t) (classified : Classified s a)
    (on : s.cb = some c) (after : t.cb = some d) : Upheld s a c d := by
  cases does with
  | tick _ | enters | acquires _ | givesUp _ | ends _ _ =>
    cases Option.some.inj (on.symm.trans after)
    exact sameUpheld
  | unguarded found off => cases off.symm.trans on
  | refuses found on' =>
    cases Option.some.inj (on.symm.trans on')
    exact seenUpheld (kept.calm c on) (Option.some.inj after).symm rfl
  | admits found on' here notOpen =>
    cases Option.some.inj (on.symm.trans on')
    subst here
    exact seenUpheld (kept.calm c on) (Option.some.inj after).symm rfl
  | @records i o ticket _ r found on' =>
    cases Option.some.inj (on.symm.trans on')
    have records := afterRecords (newSettings p) s.now (success o) (kept.issued c on i ticket found)
    have same : d = afterRequest (newSettings p) c s.now ticket (success o) := (Option.some.inj after).symm
    rw [← same] at records
    constructor
    · intro was closed
      obtain ⟨good,here⟩ := closedBySuccess records was closed
      subst here
      rcases successAnswered good with ⟨status,rfl,low,other⟩ | ⟨err,rfl,unknown⟩
      · exact ⟨low,other,found⟩
      · rcases classified with known | harmless
        · exact absurd (known.symm.trans unknown) (by decide)
        · exact absurd (harmless c on found).1 was
    · intro unanswered
      cases good : success o with
      | false => exact failuresKept (good ▸ records) (kept.calm c on)
      | true =>
        rcases successAnswered good with ⟨status,rfl,-,-⟩ | ⟨err,rfl,unknown⟩
        · exact absurd trivial unanswered
        · rcases classified with known | harmless
          · exact absurd (known.symm.trans unknown) (by decide)
          · by_cases here : c.generation = ticket
            · subst here
              exact .inl ((harmless c on found).2 ▸ Nat.zero_le _)
            · rcases kept.issued c on i ticket found with earlier | ⟨present,-⟩
              · have stale : d = currentState (newSettings p) c s.now := by
                  rw [good] at records
                  cases records with
                  | ignored _ => rfl
                  | counts now _ | probes now _ _ | closes now _ _ => exact absurd now here
                exact .inl (stale ▸ failuresCurrent (kept.calm c on))
              · exact absurd present.symm here

theorem upheldClassified (kept : Kept s) (does : Does p s a t)
    (upheld : ∀ c ∈ s.cb, ∀ d ∈ t.cb, Upheld s a c d) : Classified s a := by
  cases does with
  | tick _ | enters | acquires _ | givesUp _ | unguarded _ _ | refuses _ _ | admits _ _ _ _ => trivial
  | @ends i o ticket r found free =>
    cases o with
    | response _ | panics => trivial
    | fails err =>
      refine .inr (fun c on here => ?_)
      rcases free with off | none
      · cases off.symm.trans on
      · subst none
        cases found.symm.trans here
  | @records i o ticket c r found on =>
    cases o with
    | response _ | panics => trivial
    | fails err =>
      cases known : isNetworkError err with
      | true => exact .inl known
      | false =>
        refine .inr (fun e one here => ?_)
        cases Option.some.inj (on.symm.trans one)
        have same := Option.some.inj (Point.sent.inj (Option.some.inj (found.symm.trans here)))
        have good : success (.fails err) = true := by simp [success,attempt,isSuccessful,known]
        have records := afterRecords (newSettings p) s.now true (kept.issued c on i ticket found)
        obtain ⟨closed,none⟩ := successCounts rfl records same.symm
        obtain ⟨closes,counts⟩ := upheld c on _ rfl
        rw [good] at closes counts
        constructor
        · exact Classical.byContradiction (fun was => closes was closed)
        · rcases counts not_false with low | opened
          · rw [none] at low
            exact Nat.le_zero.mp low
          · exact Phase.noConfusion (opened.symm.trans closed)

theorem recovers (p : Provider) (now : Nat) (as : List Action) :
    Along (step p) (Recovers p) (newGuard p now) as ↔ Along (step p) Classified (newGuard p now) as := by
  constructor
  · have gives {s a t} (kept : Kept s) (recovers : Recovers p s a) (one : step p s a = some t) : Classified s a := by
      simp only [Recovers,one] at recovers
      exact upheldClassified kept (stepDoes one) recovers
    exact alongKeeps (fun kept _ one => keeps kept (stepDoes one)) gives (startKept p now)
  · have gives {s a t} (kept : Kept s) (classified : Classified s a) (one : step p s a = some t) : Recovers p s a := by
      simp only [Recovers,one]
      exact fun c on d after => classifiedUpheld kept (stepDoes one) classified on after
    exact alongKeeps (fun kept _ one => keeps kept (stepDoes one)) gives (startKept p now)

def eof : Err := .plain (.other "EOF")
def refusedConnection : Err := .wraps (.network "dial tcp") (.plain (.other "connection refused"))

def whole (i : Nat) (o : Outcome) : List Action := [.roundTrip,.acquire i,.execute i,.finish i o]

def probedByEOF : List Action :=
  whole 0 (.fails refusedConnection) ++ whole 1 (.fails refusedConnection) ++ whole 2 (.fails refusedConnection) ++
  whole 3 (.fails refusedConnection) ++ whole 4 (.fails refusedConnection) ++ [.tick 30000000001] ++ whole 5 (.fails eof)

def byDefault : Provider := ⟨none,none,0⟩

theorem eofRecovers :
    (run (step byDefault) (newGuard byDefault 0) probedByEOF).bind State.cb = some ⟨.stateClosed,3,{},0⟩ ∧
    ¬ Along (step byDefault) (Recovers byDefault) (newGuard byDefault 0) probedByEOF ∧
    ¬ Along (step byDefault) (Recovers byDefault) (newGuard byDefault 0)
      (whole 0 (.fails refusedConnection) ++ whole 1 (.fails eof)) := by
  decide

end DevkitCommon.Httpx
