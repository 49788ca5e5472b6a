import DevkitCommon.Lib.Machine

/-! The sink of the audit entries, step by step: Sink calls of any number, the worker that
takes, drains and flushes, Close. What a store call answers stands in the action. Sink and
Close exclude each other by the lock, so that a Sink call is one step. -/
namespace DevkitCommon.Hertzx.AsyncSink
open Machine

variable {α : Type}

inductive Reason where
  | closed
  | queueFull
  | storeError
  | storeDown
  deriving DecidableEq, Repr

/- The worker. again: the batch has been refused once. last: the queue is closed and empty,
the worker ends after this flush. -/
inductive Worker (α : Type) where
  | waiting
  | draining (batch : List α)
  | storing (batch : List α) (again last : Bool)
  | oneByOne (e : α) (rest : List α) (failed : Nat) (last : Bool)
  | ended
  deriving DecidableEq, Repr

/- calls are the calls of store and whether they have succeeded, dropped what the log has
as dropped. No step reads these. -/
structure State (α : Type) where
  queue : List α
  closed : Bool
  worker : Worker α
  metric : Reason → Nat
  calls : List (List α × Bool)
  dropped : List (α × Reason)

def State.init : State α := ⟨[],false,.waiting,fun _ => 0,[],[]⟩

inductive Action (α : Type) where
  | sink (e : α)
  | close
  | tick
  | work
  | store (ok : Bool)
  deriving DecidableEq, Repr

def bufferSize : Nat := 1000
def batchSize : Nat := 100
def auditStoreDownAfter : Nat := 3

def State.drop (s : State α) (es : List α) (reason : Reason) : State α :=
  {s with
    metric := fun r => if r = reason then s.metric r + es.length else s.metric r
    dropped := s.dropped ++ es.map (fun e => (e,reason))}

def State.goOn (s : State α) (w : Worker α) : State α := {s with worker := w}

def resume (last : Bool) : Worker α := if last then .ended else .waiting

def flush (batch : List α) (last : Bool) : Worker α :=
  if batch = [] then resume last else .storing batch false last

def State.proceed (s : State α) (rest : List α) (failed : Nat) (last : Bool) : State α :=
  match rest with
  | [] => s.goOn (resume last)
  | e::more =>
    if auditStoreDownAfter ≤ failed then (s.drop (e::more) .storeDown).goOn (resume last)
    else s.goOn (.oneByOne e more failed last)

def step (s : State α) : Action α → Option (State α)
  | .sink e =>
    if s.closed then some (s.drop [e] .closed)
    else if s.queue.length < bufferSize then some {s with queue := s.queue ++ [e]}
    else some (s.drop [e] .queueFull)
  | .close => some {s with closed := true}
  | .tick => match s.worker with
    | .waiting => some (s.goOn (flush [] false))
    | _ => none
  | .work => match s.worker,s.queue with
    | .waiting,e::rest => some ({s with queue := rest}.goOn (.draining [e]))
    | .waiting,[] => if s.closed then some (s.goOn (flush [] true)) else none
    | .draining batch,e::rest =>
      if batch.length < batchSize then some ({s with queue := rest}.goOn (.draining (batch ++ [e])))
      else some (s.goOn (flush batch false))
    | .draining batch,[] => some (s.goOn (flush batch (decide (batch.length < batchSize) && s.closed)))
    | _,_ => none
  | .store ok => match s.worker with
    | .storing batch again last =>
      let s := {s with calls := s.calls ++ [(batch,ok)]}
      if ok then some (s.goOn (resume last))
      else if again = false then some (s.goOn (.storing batch true last))
      else match batch with
        | e::more::rest => some (s.proceed (e::more::rest) 0 last)
        | _ => some ((s.drop batch .storeError).goOn (resume last))
    | .oneByOne e rest failed last =>
      let s := {s with calls := s.calls ++ [([e],ok)]}
      if ok then some (s.proceed rest 0 last) else some ((s.drop [e] .storeError).proceed rest (failed + 1) last)
    | _ => none

section Claim

def State.stored (s : State α) : List α := (s.calls.filter Prod.snd).flatMap Prod.fst

def Action.hands : Action α → List α
  | .sink e => [e]
  | _ => []

def handed (as : List (Action α)) : List α := as.flatMap Action.hands

structure Conserved (entries : List α) (s : State α) : Prop where
  once : s.worker = .ended → (s.stored ++ s.dropped.map Prod.fst).Perm entries
  counted : ∀ r, s.metric r = s.dropped.countP (fun d => d.2 = r)
  sizes : ∀ c ∈ s.calls, 1 ≤ c.1.length ∧ c.1.length ≤ 100
  order : s.stored.Sublist entries

def Worker.pending : Worker α → List α
  | .draining batch | .storing batch _ _ => batch
  | .oneByOne e rest _ _ => e::rest
  | _ => []

def Worker.last : Worker α → Bool
  | .storing _ _ last | .oneByOne _ _ _ last => last
  | .ended => true
  | _ => false

def Worker.Fits : Worker α → Prop
  | .draining batch | .storing batch _ _ => 1 ≤ batch.length ∧ batch.length ≤ 100
  | _ => True

structure Kept (entries : List α) (s : State α) (pending : List α) (last : Bool) : Prop where
  places : (s.stored ++ s.dropped.map Prod.fst ++ (pending ++ s.queue)).Perm entries
  counted : ∀ r, s.metric r = s.dropped.countP (fun d => d.2 = r)
  sizes : ∀ c ∈ s.calls, 1 ≤ c.1.length ∧ c.1.length ≤ 100
  order : (s.stored ++ (pending ++ s.queue)).Sublist entries
  finishing : last = true → s.queue = [] ∧ s.closed = true

structure Books (entries : List α) (s : State α) : Prop where
  kept : Kept entries s s.worker.pending s.worker.last
  fits : s.worker.Fits

variable {s t : State α} {a : Action α} {entries batch rest es : List α} {last : Bool}

theorem initBooks : Books [] (State.init : State α) :=
  ⟨⟨List.Perm.refl [],fun _ => rfl,fun _ mem => (nomatch mem),List.nil_sublist _,fun no => (nomatch no)⟩,trivial⟩

theorem goOnBooks {w : Worker α} (kept : Kept entries s w.pending w.last) (fits : w.Fits) : Books entries (s.goOn w) :=
  ⟨⟨kept.places,kept.counted,kept.sizes,kept.order,kept.finishing⟩,fits⟩

theorem resumeBooks (kept : Kept entries s [] last) : Books entries (s.goOn (resume last)) := by
  cases last with
  | true => exact goOnBooks kept trivial
  | false => exact goOnBooks kept trivial

theorem dropCounted (counted : ∀ r, s.metric r = s.dropped.countP (fun d => d.2 = r)) (es : List α) (reason : Reason) :
    ∀ r, (s.drop es reason).metric r = (s.drop es reason).dropped.countP (fun d => d.2 = r) := by
  intro r
  have all : (es.map (fun e => (e,reason))).countP (fun d => d.2 = r) = if r = reason then es.length else 0 := by
    split
    · rename_i same
      rw [List.countP_eq_length.mpr,List.length_map]
      intro d mem
      obtain ⟨e,_,rfl⟩ := List.mem_map.mp mem
      exact decide_eq_true same.symm
    · rename_i other
      refine List.countP_eq_zero.mpr (fun d mem => ?_)
      obtain ⟨e,_,rfl⟩ := List.mem_map.mp mem
      exact fun same => other (of_decide_eq_true same).symm
  show (if r = reason then s.metric r + es.length else s.metric r) = (s.dropped ++ es.map (fun e => (e,reason))).countP _
  rw [List.countP_append,all,counted r]
  split <;> rfl

theorem dropFirst (es : List α) (reason : Reason) :
    (s.drop es reason).dropped.map Prod.fst = s.dropped.map Prod.fst ++ es := by
  have pairs : (es.map (fun e => (e,reason))).map Prod.fst = es := by
    rw [List.map_map]
    exact List.map_id es
  show (s.dropped ++ es.map (fun e => (e,reason))).map Prod.fst = _
  rw [List.map_append,pairs]

theorem dropKept (kept : Kept entries s (es ++ rest) last) (reason : Reason) : Kept entries (s.drop es reason) rest last where
  places := by
    have same : s.stored ++ (s.drop es reason).dropped.map Prod.fst ++ (rest ++ s.queue) =
        s.stored ++ s.dropped.map Prod.fst ++ (es ++ rest ++ s.queue) := by
      rw [dropFirst]
      simp only [List.append_assoc]
    exact (List.Perm.of_eq same).trans kept.places
  counted := dropCounted kept.counted es reason
  sizes := kept.sizes
  order := by
    have less : (rest ++ s.queue).Sublist (es ++ rest ++ s.queue) := by
      rw [List.append_assoc]
      exact List.sublist_append_right es (rest ++ s.queue)
    exact (List.Sublist.append_left less s.stored).trans kept.order
  finishing := kept.finishing

theorem storedKept (kept : Kept entries s (batch ++ rest) last) (size : 1 ≤ batch.length ∧ batch.length ≤ 100) :
    Kept entries {s with calls := s.calls ++ [(batch,true)]} rest last := by
  have stored : ({s with calls := s.calls ++ [(batch,true)]} : State α).stored = s.stored ++ batch := by
    show ((s.calls ++ [(batch,true)]).filter Prod.snd).flatMap Prod.fst = _
    rw [List.filter_append,List.flatMap_append]
    exact congrArg (fun l => s.stored ++ l) (List.append_nil batch)
  refine ⟨?_,kept.counted,fun c mem => ?_,?_,kept.finishing⟩
  · have moved : (batch ++ s.dropped.map Prod.fst).Perm (s.dropped.map Prod.fst ++ batch) := List.perm_append_comm
    have whole := (moved.append_left s.stored).append_right (rest ++ s.queue)
    rw [stored]
    simp only [List.append_assoc] at whole ⊢
    have before := kept.places
    simp only [List.append_assoc] at before
    exact whole.trans before
  · obtain old | new := List.mem_append.mp mem
    · exact kept.sizes c old
    · rw [List.mem_singleton.mp new]
      exact size
  · have whole := kept.order
    rw [stored]
    rwa [List.append_assoc,← List.append_assoc batch]

theorem refusedKept {pending : List α} (kept : Kept entries s pending last) (size : 1 ≤ batch.length ∧ batch.length ≤ 100) :
    Kept entries {s with calls := s.calls ++ [(batch,false)]} pending last := by
  have stored : ({s with calls := s.calls ++ [(batch,false)]} : State α).stored = s.stored := by
    show ((s.calls ++ [(batch,false)]).filter Prod.snd).flatMap Prod.fst = _
    rw [List.filter_append]
    exact congrArg (List.flatMap Prod.fst) (List.append_nil _)
  refine ⟨?_,kept.counted,fun c mem => ?_,?_,kept.finishing⟩
  · rw [stored]
    exact kept.places
  · obtain old | new := List.mem_append.mp mem
    · exact kept.sizes c old
    · rw [List.mem_singleton.mp new]
      exact size
  · rw [stored]
    exact kept.order

theorem proceedBooks (kept : Kept entries s rest last) (failed : Nat) : Books entries (s.proceed rest failed last) := by
  cases rest with
  | nil => exact resumeBooks kept
  | cons e more =>
    unfold State.proceed
    dsimp only
    split
    · have all : Kept entries s ((e::more) ++ []) last := by
        rw [List.append_nil]
        exact kept
      exact resumeBooks (dropKept all .storeDown)
    · exact goOnBooks kept trivial

theorem takenKept {e : α} {pending : List α} (kept : Kept entries s pending false) (queue : s.queue = e::rest) :
    Kept entries {s with queue := rest} (pending ++ [e]) false where
  places := by
    have before := kept.places
    rw [queue] at before
    rwa [List.append_assoc pending,List.singleton_append]
  counted := kept.counted
  sizes := kept.sizes
  order := by
    have before := kept.order
    rw [queue] at before
    rwa [List.append_assoc,List.singleton_append]
  finishing := fun no => nomatch no

theorem flushBooks (kept : Kept entries s batch last) (most : batch.length ≤ 100) : Books entries (s.goOn (flush batch last)) := by
  unfold flush
  split
  · rename_i empty
    rw [empty] at kept
    exact resumeBooks kept
  · rename_i some'
    exact goOnBooks kept ⟨List.length_pos_iff.mpr some',most⟩

theorem sinkDropped {pending : List α} (kept : Kept entries s pending last) (e : α) (reason : Reason) :
    Kept (entries ++ [e]) (s.drop [e] reason) pending last where
  places := by
    have moved : ([e] ++ (pending ++ s.queue)).Perm (pending ++ s.queue ++ [e]) := List.perm_append_comm
    have whole := moved.append_left (s.stored ++ s.dropped.map Prod.fst)
    have before := kept.places.append_right [e]
    show (s.stored ++ (s.drop [e] reason).dropped.map Prod.fst ++ (pending ++ s.queue)).Perm (entries ++ [e])
    rw [dropFirst]
    simp only [List.append_assoc] at whole before ⊢
    exact whole.trans before
  counted := dropCounted kept.counted [e] reason
  sizes := kept.sizes
  order := kept.order.trans (List.sublist_append_left entries [e])
  finishing := kept.finishing

theorem sinkQueued {pending : List α} (kept : Kept entries s pending last) (e : α) (opened : ¬ s.closed = true) :
    Kept (entries ++ [e]) {s with queue := s.queue ++ [e]} pending last where
  places := by
    have before := kept.places.append_right [e]
    simp only [List.append_assoc] at before ⊢
    exact before
  counted := kept.counted
  sizes := kept.sizes
  order := by
    have more := kept.order.append (List.Sublist.refl [e])
    rwa [List.append_assoc,List.append_assoc] at more
  finishing := fun ending => absurd (kept.finishing ending).2 opened

theorem stepBooks (inv : Books entries s) (one : step s a = some t) : Books (entries ++ a.hands) t := by
  obtain ⟨kept,fits⟩ := inv
  cases a with
  | sink e =>
    simp only [step] at one
    split at one
    · cases Option.some.inj one
      exact ⟨sinkDropped kept e .closed,fits⟩
    · rename_i opened
      split at one
      · cases Option.some.inj one
        exact ⟨sinkQueued kept e opened,fits⟩
      · cases Option.some.inj one
        exact ⟨sinkDropped kept e .queueFull,fits⟩
  | close =>
    show Books (entries ++ []) t
    rw [List.append_nil]
    cases Option.some.inj one
    exact ⟨⟨kept.places,kept.counted,kept.sizes,kept.order,fun ending => ⟨(kept.finishing ending).1,rfl⟩⟩,fits⟩
  | tick =>
    show Books (entries ++ []) t
    rw [List.append_nil]
    simp only [step] at one
    split at one
    · rename_i waiting
      cases Option.some.inj one
      rw [waiting] at kept
      exact flushBooks kept (Nat.zero_le _)
    · cases one
  | work =>
    show Books (entries ++ []) t
    rw [List.append_nil]
    simp only [step] at one
    split at one
    · rename_i e rest waiting queue
      cases Option.some.inj one
      rw [waiting] at kept
      exact goOnBooks (takenKept kept queue) ⟨Nat.le_refl 1,show 1 ≤ 100 by omega⟩
    · rename_i waiting queue
      split at one
      · rename_i closed
        cases Option.some.inj one
        rw [waiting] at kept
        have ending : Kept entries s [] true := ⟨kept.places,kept.counted,kept.sizes,kept.order,fun _ => ⟨queue,closed⟩⟩
        exact flushBooks ending (Nat.zero_le _)
      · cases one
    · rename_i batch e rest draining queue
      rw [draining] at kept fits
      split at one
      · rename_i room
        cases Option.some.inj one
        have short : batch.length < 100 := room
        exact goOnBooks (takenKept kept queue) ⟨by rw [List.length_append]; exact Nat.le_add_left 1 _,
          by rw [List.length_append]; exact short⟩
      · cases Option.some.inj one
        exact flushBooks kept fits.2
    · rename_i batch draining queue
      rw [draining] at kept fits
      cases Option.some.inj one
      have ending : Kept entries s batch (decide (batch.length < batchSize) && s.closed) :=
        ⟨kept.places,kept.counted,kept.sizes,kept.order,fun both => ⟨queue,(Bool.and_eq_true_iff.mp both).2⟩⟩
      exact flushBooks ending fits.2
    · cases one
  | store ok =>
    show Books (entries ++ []) t
    rw [List.append_nil]
    simp only [step] at one
    split at one
    · rename_i batch again last storing
      rw [storing] at kept fits
      cases ok with
      | true =>
        cases Option.some.inj one
        have all : Kept entries s (batch ++ []) last := by
          rw [List.append_nil]
          exact kept
        exact resumeBooks (storedKept all fits)
      | false =>
        have refused : Kept entries {s with calls := s.calls ++ [(batch,false)]} batch last := refusedKept kept fits
        simp only [Bool.false_eq_true,if_false] at one
        split at one
        · cases Option.some.inj one
          exact goOnBooks refused fits
        · split at one
          · cases Option.some.inj one
            exact proceedBooks refused 0
          · cases Option.some.inj one
            have all : Kept entries {s with calls := s.calls ++ [(batch,false)]} (batch ++ []) last := by
              rw [List.append_nil]
              exact refused
            exact resumeBooks (dropKept all .storeError)
    · rename_i e rest failed last storing
      rw [storing] at kept
      have single : Kept entries s ([e] ++ rest) last := kept
      cases ok with
      | true =>
        cases Option.some.inj one
        exact proceedBooks (storedKept single ⟨Nat.le_refl 1,show 1 ≤ 100 by omega⟩) 0
      | false =>
        cases Option.some.inj one
        have refused : Kept entries {s with calls := s.calls ++ [([e],false)]} ([e] ++ rest) last :=
          refusedKept single ⟨Nat.le_refl 1,show 1 ≤ 100 by omega⟩
        exact proceedBooks (dropKept refused .storeError) (failed + 1)
    · cases one

theorem runBooks {as : List (Action α)} (inv : Books entries s) (ok : run step s as = some t) :
    Books (entries ++ handed as) t := by
  induction as generalizing entries s with
  | nil =>
    cases Option.some.inj ok
    rwa [handed,List.flatMap_nil,List.append_nil]
  | cons a as ih =>
    obtain ⟨u,one,rest⟩ := runCons.mp ok
    have whole := ih (stepBooks inv one) rest
    rwa [List.append_assoc] at whole

theorem entriesConserved {as : List (Action α)} (ok : run step State.init as = some t) : Conserved (handed as) t := by
  obtain ⟨kept,-⟩ := runBooks initBooks ok
  rw [List.nil_append] at kept
  refine ⟨fun ended => ?_,kept.counted,kept.sizes,(List.sublist_append_left _ _).trans kept.order⟩
  have places := kept.places
  rw [ended] at places kept
  have nothing : (Worker.ended.pending : List α) ++ [] = [] := rfl
  rwa [(kept.finishing rfl).1,nothing,List.append_nil] at places

def shutdown : List (Action Nat) :=
  [.sink 7,.sink 8,.work,.work,.work,.store false,.store false,.close,.store false,.sink 9,.store true,.work]

theorem shutdownConserved : ∃ t, run step State.init shutdown = some t ∧ t.worker = .ended ∧
    t.stored = [8] ∧ t.dropped = [(7,.storeError),(9,.closed)] ∧ Conserved [7,8,9] t := by
  have shown : (run step State.init shutdown).map (fun t => (t.worker,t.stored,t.dropped)) =
      some (.ended,[8],[(7,.storeError),(9,.closed)]) := by decide
  obtain ⟨t,ok,same⟩ := Option.map_eq_some_iff.mp shown
  obtain ⟨ended,rest⟩ := Prod.mk.inj same
  obtain ⟨stored,dropped⟩ := Prod.mk.inj rest
  exact ⟨t,ok,ended,stored,dropped,entriesConserved ok⟩

end Claim
end DevkitCommon.Hertzx.AsyncSink
