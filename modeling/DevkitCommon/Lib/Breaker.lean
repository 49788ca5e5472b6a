/-! A circuit breaker. Closed it counts, open it refuses, half-open it lets so many probes
through. Every change of state begins a generation with counts of its own, and the result of a
request counts only in the generation that admitted it. -/
namespace DevkitCommon.Breaker

inductive Phase where
  | stateClosed | stateHalfOpen | stateOpen
  deriving DecidableEq, Repr

structure Counts where
  requests : Nat := 0
  consecutiveSuccesses : Nat := 0
  consecutiveFailures : Nat := 0
  deriving DecidableEq, Repr

def Counts.onRequest (n : Counts) : Counts := {n with requests := n.requests+1}

def Counts.onSuccess (n : Counts) : Counts :=
  {n with consecutiveSuccesses := n.consecutiveSuccesses+1,consecutiveFailures := 0}

def Counts.onFailure (n : Counts) : Counts :=
  {n with consecutiveFailures := n.consecutiveFailures+1,consecutiveSuccesses := 0}

structure Settings where
  maxRequests : Nat
  timeout : Nat
  readyToTrip : Counts → Bool

structure Circuit where
  phase : Phase := .stateClosed
  generation : Nat := 0
  counts : Counts := {}
  expiry : Nat := 0
  deriving DecidableEq, Repr

inductive Refusal where
  | errOpenState | errTooManyRequests
  deriving DecidableEq, Repr

variable (settings : Settings)

def setState (c : Circuit) (phase : Phase) (now : Nat) : Circuit :=
  if c.phase = phase then c
  else ⟨phase,c.generation+1,{},if phase = .stateOpen then now+settings.timeout else 0⟩

def currentState (c : Circuit) (now : Nat) : Circuit :=
  if c.phase = .stateOpen ∧ c.expiry < now then setState settings c .stateHalfOpen now else c

def beforeRequest (c : Circuit) (now : Nat) : Circuit × Except Refusal Nat :=
  let c := currentState settings c now
  if c.phase = .stateOpen then (c,.error .errOpenState)
  else if c.phase = .stateHalfOpen ∧ settings.maxRequests ≤ c.counts.requests then (c,.error .errTooManyRequests)
  else ({c with counts := c.counts.onRequest},.ok c.generation)

def onSuccess (c : Circuit) (now : Nat) : Circuit :=
  let counted := {c with counts := c.counts.onSuccess}
  match c.phase with
  | .stateClosed => counted
  | .stateHalfOpen =>
    if settings.maxRequests ≤ counted.counts.consecutiveSuccesses then setState settings counted .stateClosed now
    else counted
  | .stateOpen => c

def onFailure (c : Circuit) (now : Nat) : Circuit :=
  let counted := {c with counts := c.counts.onFailure}
  match c.phase with
  | .stateClosed => if settings.readyToTrip counted.counts then setState settings counted .stateOpen now else counted
  | .stateHalfOpen => setState settings c .stateOpen now
  | .stateOpen => c

def afterRequest (c : Circuit) (now ticket : Nat) (success : Bool) : Circuit :=
  let c := currentState settings c now
  if c.generation ≠ ticket then c
  else if success then onSuccess settings c now
  else onFailure settings c now

/- A ticket is the generation of a request that was admitted: an earlier one, or the present
one of a circuit that admits. -/
def Issued (c : Circuit) (ticket : Nat) : Prop :=
  ticket < c.generation ∨ ticket = c.generation ∧ c.phase ≠ .stateOpen

def Calm (c : Circuit) : Prop := c.phase = .stateOpen → c.counts = {}

inductive Records (c : Circuit) (now ticket : Nat) : Bool → Circuit → Prop where
  | ignored {success} (stale : ticket < c.generation) :
      Records c now ticket success (currentState settings c now)
  | counts (here : c.generation = ticket) (phase : c.phase = .stateClosed) :
      Records c now ticket true {c with counts := c.counts.onSuccess}
  | probes (here : c.generation = ticket) (phase : c.phase = .stateHalfOpen)
      (few : c.counts.consecutiveSuccesses+1 < settings.maxRequests) :
      Records c now ticket true {c with counts := c.counts.onSuccess}
  | closes (here : c.generation = ticket) (phase : c.phase = .stateHalfOpen)
      (enough : settings.maxRequests ≤ c.counts.consecutiveSuccesses+1) :
      Records c now ticket true ⟨.stateClosed,c.generation+1,{},0⟩
  | fails (here : c.generation = ticket) (phase : c.phase = .stateClosed) :
      Records c now ticket false {c with counts := c.counts.onFailure}
  | trips (here : c.generation = ticket) (phase : c.phase ≠ .stateOpen) :
      Records c now ticket false ⟨.stateOpen,c.generation+1,{},now+settings.timeout⟩

variable {settings} {c d : Circuit} {now ticket : Nat} {success : Bool}

theorem currentCases (settings : Settings) (c : Circuit) (now : Nat) : currentState settings c now = c ∨
    c.phase = .stateOpen ∧ currentState settings c now = ⟨.stateHalfOpen,c.generation+1,{},0⟩ := by
  unfold currentState
  split
  · rename_i expired
    exact .inr ⟨expired.1,by simp [setState,expired.1]⟩
  · exact .inl rfl

theorem issuedCurrent (issued : Issued c ticket) : Issued (currentState settings c now) ticket := by
  rcases currentCases settings c now with same | ⟨opened,fresh⟩
  · rwa [same]
  · rw [fresh]
    rcases issued with earlier | ⟨-,notOpen⟩
    · exact .inl (Nat.lt_succ_of_lt earlier)
    · exact absurd opened notOpen

theorem calmCurrent (calm : Calm c) : Calm (currentState settings c now) := by
  rcases currentCases settings c now with same | ⟨-,fresh⟩
  · rwa [same]
  · rw [fresh]
    exact fun _ => rfl

theorem beforeCases (settings : Settings) (c : Circuit) (now : Nat) :
    (∃ r, beforeRequest settings c now = (currentState settings c now,.error r)) ∨
    (currentState settings c now).phase ≠ .stateOpen ∧ beforeRequest settings c now =
      ({currentState settings c now with counts := (currentState settings c now).counts.onRequest},
        .ok (currentState settings c now).generation) := by
  unfold beforeRequest
  dsimp only
  split
  · exact .inl ⟨_,rfl⟩
  · rename_i notOpen
    split
    · exact .inl ⟨_,rfl⟩
    · exact .inr ⟨notOpen,rfl⟩

theorem afterRecords (settings : Settings) (now : Nat) (success : Bool) (issued : Issued c ticket) :
    Records settings c now ticket success (afterRequest settings c now ticket success) := by
  rcases issued with earlier | ⟨here,notOpen⟩
  · have stale : (currentState settings c now).generation ≠ ticket := by
      rcases currentCases settings c now with same | ⟨-,fresh⟩
      · rw [same]
        omega
      · rw [fresh]
        simp only
        omega
    simp only [afterRequest,if_pos stale]
    exact .ignored earlier
  · have same : currentState settings c now = c := by simp [currentState,notOpen]
    subst here
    simp only [afterRequest,same,ne_eq,not_true_eq_false,if_false]
    cases phase : c.phase with
    | stateOpen => exact absurd phase notOpen
    | stateClosed =>
      cases success with
      | true =>
        simp only [if_true,onSuccess,phase]
        exact phase ▸ .counts rfl phase
      | false =>
        simp only [Bool.false_eq_true,if_false,onFailure,phase]
        split
        · simp only [setState,reduceCtorEq,if_false,if_true]
          exact .trips rfl notOpen
        · exact phase ▸ .fails rfl phase
    | stateHalfOpen =>
      cases success with
      | true =>
        simp only [if_true,onSuccess,phase,Counts.onSuccess]
        split
        · rename_i enough
          simp only [setState,reduceCtorEq,if_false]
          exact .closes rfl phase enough
        · rename_i few
          exact phase ▸ .probes rfl phase (Nat.lt_of_not_le few)
      | false =>
        simp only [Bool.false_eq_true,if_false,onFailure,phase,setState,reduceCtorEq,if_true]
        exact .trips rfl notOpen

theorem issuedAfter {other : Nat} (records : Records settings c now ticket success d) (issued : Issued c other) :
    Issued d other := by
  cases records with
  | ignored stale => exact issuedCurrent issued
  | counts here phase => exact issued
  | probes here phase few => exact issued
  | fails here phase => exact issued
  | closes here phase enough => exact .inl (by rcases issued with h | ⟨h,-⟩ <;> simp only <;> omega)
  | trips here phase => exact .inl (by rcases issued with h | ⟨h,-⟩ <;> simp only <;> omega)

theorem calmAfter (records : Records settings c now ticket success d) (calm : Calm c) : Calm d := by
  cases records with
  | ignored stale => exact calmCurrent calm
  | counts here phase => exact fun opened => absurd (opened.symm.trans phase) (by decide)
  | probes here phase few => exact fun opened => absurd (opened.symm.trans phase) (by decide)
  | fails here phase => exact fun opened => absurd (opened.symm.trans phase) (by decide)
  | closes here phase enough => exact fun _ => rfl
  | trips here phase => exact fun _ => rfl

theorem closedBySuccess (records : Records settings c now ticket success d) (was : c.phase ≠ .stateClosed)
    (closed : d.phase = .stateClosed) : success = true ∧ c.generation = ticket := by
  cases records with
  | ignored stale =>
    rcases currentCases settings c now with same | ⟨-,fresh⟩
    · rw [same] at closed
      exact absurd closed was
    · rw [fresh] at closed
      exact Phase.noConfusion closed
  | counts here phase => exact ⟨rfl,here⟩
  | probes here phase few => exact ⟨rfl,here⟩
  | closes here phase enough => exact ⟨rfl,here⟩
  | fails here phase => exact absurd phase was
  | trips here phase => exact Phase.noConfusion closed

theorem failuresCurrent (calm : Calm c) :
    c.counts.consecutiveFailures ≤ (currentState settings c now).counts.consecutiveFailures := by
  rcases currentCases settings c now with same | ⟨opened,-⟩
  · exact Nat.le_of_eq (congrArg (fun d => d.counts.consecutiveFailures) same.symm)
  · exact Nat.le_trans (Nat.le_of_eq (congrArg (fun d => d.consecutiveFailures) (calm opened))) (Nat.zero_le _)

theorem failuresKept (records : Records settings c now ticket false d) (calm : Calm c) :
    c.counts.consecutiveFailures ≤ d.counts.consecutiveFailures ∨ d.phase = .stateOpen := by
  cases records with
  | ignored stale => exact .inl (failuresCurrent calm)
  | fails here phase => exact .inl (Nat.le_succ _)
  | trips here phase => exact .inr rfl

theorem successCounts (one : settings.maxRequests = 1) (records : Records settings c now ticket true d)
    (here : c.generation = ticket) : d.phase = .stateClosed ∧ d.counts.consecutiveFailures = 0 := by
  cases records with
  | ignored stale => exact absurd here (Nat.ne_of_gt stale)
  | counts _ phase => exact ⟨phase,rfl⟩
  | probes _ phase few => omega
  | closes _ phase enough => exact ⟨rfl,rfl⟩

end DevkitCommon.Breaker
