import DevkitCommon.Kafkax.Outbox
import DevkitCommon.Lib.Pairs

/-! The transactional outbox: what is published was committed, by whom and as what; what is
marked sent was acknowledged; what is deleted was sent; what is left is tried again. -/
namespace DevkitCommon.Kafkax.Outbox
open Machine Pairs

section Moves
variable (db : Database) (s : State)

def begun (service : String) (taken : List OutboxRow) (point : RoundPoint) : Round :=
  ⟨service,taken,taken,[],point,[]⟩

inductive Stops (r : Nat) (round : Round) : Action → RoundPoint → Prop where
  | refused {reply row rest err} (here : round.point = .mark err) (head : round.todo = row::rest)
      (why : reply ≠ .ok ∨ storable (roundFields row s.clock err).lastError = false) :
      Stops r round (.update r reply) .rollback
  | uncommitted (here : round.point = .next) (done : round.todo = []) :
      Stops r round (.commit r .failed) (.ended false)
  | rolledBack (here : round.point = .rollback ∨ round.point = .dead) :
      Stops r round (.rollback r) (.ended false)
  | crashes (running : round.holds = true) : Stops r round (.crash r) .dead

inductive Does : Action → State → Prop where
  | tick (d : Nat) : Does (.tick d) {s with clock := s.clock + d}
  | openTx : Does .openTx {s with txs := s.txs ++ [.active]}
  | queues {a x row} (active : s.txs[x]? = some .active) (id : row.id = s.inserted.length)
      (unsent : row.sentAt = none) (due : row.nextAttemptAt = s.clock) :
      Does a {s with inserted := s.inserted ++ [(x,row)]}
  | nothing {a} : Does a s
  | commits {x reply} (active : s.txs[x]? = some .active) : Does (.commitTx x reply)
      {s with txs := s.txs.set x .committed,
              rows := s.rows ++ (s.inserted.filter (fun entry => entry.1 == x)).map Prod.snd}
  | rollsBack {a x} (active : s.txs[x]? = some .active) : Does a {s with txs := s.txs.set x .rolledBack}
  | relays {service reply} (cfg : OutboxConfig) (p : RoundPoint) (fresh : p = .next ∨ p = .rollback) :
      Does (.relay service cfg reply)
        {s with rounds := s.rounds ++ [begun service ((s.candidates db service).take cfg.batch) p]}
  | produces {r reply err round row rest answer published} (found : s.rounds[r]? = some round)
      (here : round.point = .next) (head : round.todo = row::rest)
      (answered : answer = if reply = .ok then none else some err)
      (sent : published = if reply.ran then
        s.published ++ [⟨round.service,row.id,record db.tenant row,decide (reply = .ok)⟩] else s.published) :
      Does (.produce r reply err) ({s with published := published}.setRound r
        {round with point := .mark answer, answers := round.answers ++ [(row,answer)]})
  | updates {r round row rest err} (found : s.rounds[r]? = some round) (here : round.point = .mark err)
      (head : round.todo = row::rest) (fits : storable (roundFields row s.clock err).lastError = true) :
      Does (.update r .ok) (s.setRound r {round with
        todo := rest, marks := round.marks ++ [(row.id,roundFields row s.clock err)], point := .next})
  | commit {r reply round} (found : s.rounds[r]? = some round) (here : round.point = .next)
      (done : round.todo = []) :
      Does (.commit r reply) ({s with rows := applyMarks round.marks s.rows}.setRound r
        {round with point := .ended true})
  | stops {a r round p} (found : s.rounds[r]? = some round) (why : Stops s r round a p) :
      Does a (s.setRound r {round with point := p})
  | cleanup {cfg ids reply} : Does (.cleanup cfg ids reply) {s with
      rows := s.rows.filter (fun row => !(decide (row.id ∈ ids) && expired s cfg row))
      deleted := s.deleted ++ s.rows.filter (fun row => decide (row.id ∈ ids) && expired s cfg row)}

end Moves

variable {db : Database} {s t : State} {a : Action}

theorem stepDoes (one : step db s a = some t) : Does db s a t := by
  cases a <;> simp only [step,bind,Option.bind_eq_some_iff] at one
  case tick d => cases one; exact .tick d
  case openTx => cases one; exact .openTx
  case publishTx x service eventID topic key eventType payload trace reply =>
    split at one <;> try contradiction
    rename_i active
    cases one
    split
    · exact .queues active rfl rfl rfl
    · exact .nothing
  case commitTx x reply =>
    split at one <;> try contradiction
    rename_i active
    split at one
    · cases one; exact .commits active
    · cases one; exact .rollsBack active
  case rollbackTx x =>
    split at one <;> try contradiction
    rename_i active
    cases one
    exact .rollsBack active
  case relay service cfg reply =>
    split at one
    · cases one
      refine .relays cfg _ ?_
      split
      · exact .inl rfl
      · exact .inr rfl
    · cases one; exact .nothing
  case produce r reply err =>
    obtain ⟨round,found,last⟩ := one
    split at last <;> try contradiction
    rename_i here head
    cases Option.some.inj last
    exact .produces found here head rfl rfl
  case update r reply =>
    obtain ⟨round,found,last⟩ := one
    split at last <;> try contradiction
    rename_i here head
    split at last
    · rename_i fine
      cases Option.some.inj last
      obtain ⟨rfl,fits⟩ := fine
      exact .updates found here head fits
    · rename_i refused
      cases Option.some.inj last
      rw [Decidable.not_and_iff_not_or_not,Bool.not_eq_true] at refused
      exact .stops found (.refused here head refused)
  case commit r reply =>
    obtain ⟨round,found,last⟩ := one
    split at last <;> try contradiction
    rename_i here done
    cases reply <;> simp only [Reply.ran,if_true,Bool.false_eq_true,if_false] at last <;>
      cases Option.some.inj last
    · exact .commit found here done
    · exact .commit found here done
    · exact .stops found (.uncommitted here done)
  case rollback r =>
    obtain ⟨round,found,last⟩ := one
    split at last <;> try contradiction
    all_goals
      rename_i here
      cases Option.some.inj last
    · exact .stops found (.rolledBack (.inl here))
    · exact .stops found (.rolledBack (.inr here))
  case crash r =>
    obtain ⟨round,found,last⟩ := one
    split at last <;> try contradiction
    rename_i running _
    cases Option.some.inj last
    refine .stops found (.crashes ?_)
    unfold Round.holds
    split
    · rename_i ended
      exact absurd ended (running _)
    · rfl
  case cleanup cfg ids reply =>
    split at one <;> try contradiction
    split at one
    · cases one; exact .cleanup
    · cases one; exact .nothing

theorem stopsReady {r : Nat} {round : Round} {p : RoundPoint} (why : Stops s r round a p) (err : Option Bytes) :
    p ≠ .mark err := by
  cases why <;> exact RoundPoint.noConfusion

structure Grows (s t : State) : Prop where
  clock : s.clock ≤ t.clock
  inserted : ∀ (i : Nat) (entry : Nat × OutboxRow), s.inserted[i]? = some entry → t.inserted[i]? = some entry
  committed : ∀ x : Nat, s.txs[x]? = some .committed → t.txs[x]? = some .committed
  published : ∀ p ∈ s.published, p ∈ t.published

theorem committedSet {x y : Nat} {point : TxPoint} (active : s.txs[x]? = some .active)
    (before : s.txs[y]? = some .committed) : (s.txs.set x point)[y]? = some .committed := by
  by_cases same : x = y
  · subst same
    rw [active] at before
    contradiction
  · rwa [List.getElem?_set_ne same]

theorem doesGrows (does : Does db s a t) : Grows s t := by
  have same : Grows s s := ⟨Int.le_refl _,fun _ _ h => h,fun _ h => h,fun _ h => h⟩
  cases does with
  | tick d => exact {same with clock := by simp only; omega}
  | openTx =>
    refine {same with committed := fun x before => ?_}
    rwa [List.getElem?_append_left (List.getElem?_eq_some_iff.mp before).1]
  | queues =>
    refine {same with inserted := fun i entry before => ?_}
    rwa [List.getElem?_append_left (List.getElem?_eq_some_iff.mp before).1]
  | nothing => exact same
  | commits active => exact {same with committed := fun _ before => committedSet active before}
  | rollsBack active => exact {same with committed := fun _ before => committedSet active before}
  | relays => exact {same with}
  | produces found here head answered sent =>
    refine {same with published := fun p mem => ?_}
    simp only [State.setRound,sent]
    split
    · exact List.mem_append_left _ mem
    · exact mem
  | updates => exact {same with}
  | commit => exact {same with}
  | stops => exact {same with}
  | cleanup => exact {same with}

def Origin (s : State) (row : OutboxRow) : Prop :=
  ∃ x first, s.inserted[row.id]? = some (x,first) ∧ s.txs[x]? = some .committed ∧ first.toQueued = row.toQueued

def Acked (s : State) (id : Nat) : Prop := ∃ p ∈ s.published, p.row = id ∧ p.acked = true

def longest : Int := 300000

structure RoundSound (s : State) (round : Round) : Prop where
  taken : ∀ row ∈ round.taken, Origin s row
  todo : ∀ row ∈ round.todo, row ∈ round.taken
  marks : ∀ mark ∈ round.marks, mark.2.sentAt ≠ none → Acked s mark.1
  waits : ∀ mark ∈ round.marks, ∀ n, mark.2.nextAttemptAt = some n → n ≤ s.clock + longest
  answer : round.point = .mark none → ∀ row rest, round.todo = row::rest → Acked s row.id

structure Sound (db : Database) (s : State) : Prop where
  numbered : ∀ (i x : Nat) (row : OutboxRow), s.inserted[i]? = some (x,row) →
    row.id = i ∧ x < s.txs.length ∧ row.sentAt = none ∧ row.nextAttemptAt ≤ s.clock
  rows : ∀ row ∈ s.rows, Origin s row
  sent : ∀ row ∈ s.rows, row.sentAt ≠ none → Acked s row.id
  waits : ∀ row ∈ s.rows, row.nextAttemptAt ≤ s.clock + longest
  published : ∀ p ∈ s.published, ∃ row, Origin s row ∧ row.id = p.row ∧ p.record = record db.tenant row
  rounds : ∀ round ∈ s.rounds, RoundSound s round
  deleted : ∀ row ∈ s.deleted, row.sentAt ≠ none ∧ Acked s row.id
  kept : ∀ (i x : Nat) (row : OutboxRow), s.inserted[i]? = some (x,row) → s.txs[x]? = some .committed →
    (∃ now ∈ s.rows, now.id = i) ∨ ∃ old ∈ s.deleted, old.id = i

section Growth
variable {row : OutboxRow} {id : Nat} {round : Round}

theorem originGrows (grows : Grows s t) (origin : Origin s row) : Origin t row := by
  obtain ⟨x,first,inserted,committed,same⟩ := origin
  exact ⟨x,first,grows.inserted _ _ inserted,grows.committed x committed,same⟩

theorem ackedGrows (grows : Grows s t) (acked : Acked s id) : Acked t id := by
  obtain ⟨p,mem,same,answered⟩ := acked
  exact ⟨p,grows.published p mem,same,answered⟩

theorem roundGrows (grows : Grows s t) (sound : RoundSound s round) : RoundSound t round where
  taken := fun row mem => originGrows grows (sound.taken row mem)
  todo := sound.todo
  marks := fun mark mem sent => ackedGrows grows (sound.marks mark mem sent)
  waits := fun mark mem n next => by
    have before := sound.waits mark mem n next
    have clock := grows.clock
    omega
  answer := fun here row rest head => ackedGrows grows (sound.answer here row rest head)

end Growth

section Rounds
variable {round : Round} {row : OutboxRow} {rest : List OutboxRow} {err : Option Bytes} {r : Nat}

theorem memCandidates {service : String} : row ∈ s.candidates db service ↔ row ∈ s.rows ∧
    db.fold row.service = db.fold service ∧ row.sentAt = none ∧ row.nextAttemptAt ≤ s.clock ∧
    s.locked row.id = false := by
  simp only [State.candidates,List.mem_insertionSort,List.mem_filter,Bool.and_eq_true,beq_iff_eq,
    Option.isNone_iff_eq_none,decide_eq_true_eq,Bool.not_eq_true',and_assoc]

theorem backoffShort (n : Nat) : backoff n ≤ longest := Int.min_le_right ..

theorem fieldsSent : (roundFields row s.clock err).sentAt ≠ none → err = none := by
  cases err with
  | none => exact fun _ => rfl
  | some err => exact fun sent => absurd rfl sent

theorem fieldsWait {n : Int} (next : (roundFields row s.clock err).nextAttemptAt = some n) :
    n ≤ s.clock + longest := by
  cases err with
  | none => contradiction
  | some err =>
    cases Option.some.inj next
    have short := backoffShort (row.attempts + 1)
    omega

theorem pointSound {p : RoundPoint} (grows : Grows s t) (sound : RoundSound s round) (ready : ∀ err, p ≠ .mark err) :
    RoundSound t {round with point := p} :=
  have later := roundGrows grows sound
  {later with answer := fun here => absurd here (ready none)}

theorem begunSound {service : String} {n : Nat} {p : RoundPoint} (sound : Sound db s) (grows : Grows s t)
    (ready : ∀ err, p ≠ .mark err) : RoundSound t (begun service ((s.candidates db service).take n) p) where
  taken := fun row mem => by
    have stored := (memCandidates.mp (List.mem_of_mem_take mem)).1
    exact originGrows grows (sound.rows row stored)
  todo := fun _ mem => mem
  marks := fun _ mem => absurd mem List.not_mem_nil
  waits := fun _ mem => absurd mem List.not_mem_nil
  answer := fun here => absurd here (ready none)

theorem producedSound {answers : List (OutboxRow × Option Bytes)} (grows : Grows s t) (sound : RoundSound s round)
    (head : round.todo = row::rest) (acked : err = none → Acked t row.id) :
    RoundSound t {round with point := .mark err,answers := answers} := by
  have later := roundGrows grows sound
  refine {later with answer := fun here first others same => ?_}
  cases head.symm.trans same
  exact acked (RoundPoint.mark.inj here)

theorem updatedSound (grows : Grows s t) (sound : RoundSound s round) (here : round.point = .mark err)
    (head : round.todo = row::rest) : RoundSound t {round with
      todo := rest, marks := round.marks ++ [(row.id,roundFields row s.clock err)], point := .next} := by
  have later := roundGrows grows sound
  refine ⟨later.taken,fun other mem => later.todo other ?_,fun mark mem sent => ?_,fun mark mem n next => ?_,
    RoundPoint.noConfusion⟩
  · rw [head]
    exact List.mem_cons_of_mem _ mem
  · rcases List.mem_append.mp mem with old | new
    · exact later.marks mark old sent
    · cases List.mem_singleton.mp new
      have ok := fieldsSent sent
      subst ok
      exact later.answer here row rest head
  · rcases List.mem_append.mp mem with old | new
    · exact later.waits mark old n next
    · cases List.mem_singleton.mp new
      have wait := fieldsWait next
      have clock := grows.clock
      omega

theorem roundsStep (sound : Sound db s) (does : Does db s a t) : ∀ round ∈ t.rounds, RoundSound t round := by
  have grows := doesGrows does
  have kept : ∀ round ∈ s.rounds, RoundSound t round := fun round mem => roundGrows grows (sound.rounds round mem)
  intro now mem
  cases does with
  | tick | openTx | queues | nothing | commits | rollsBack | cleanup => exact kept now mem
  | relays cfg p fresh =>
    rcases List.mem_append.mp mem with old | new
    · exact kept now old
    · cases List.mem_singleton.mp new
      refine begunSound sound grows (fun _ => ?_)
      rcases fresh with rfl | rfl <;> exact RoundPoint.noConfusion
  | @produces r reply err round row rest answer published found here head answered sent =>
    rcases List.mem_or_eq_of_mem_set mem with old | rfl
    · exact kept now old
    · refine producedSound grows (sound.rounds round (List.mem_of_getElem? found)) head (fun ok => ?_)
      subst answered sent
      have acked : reply = .ok := by
        by_contra other
        rw [if_neg other] at ok
        contradiction
      subst acked
      exact ⟨_,List.mem_append_right _ (List.mem_singleton_self _),rfl,rfl⟩
  | updates found here head fits =>
    rcases List.mem_or_eq_of_mem_set mem with old | rfl
    · exact kept now old
    · exact updatedSound grows (sound.rounds _ (List.mem_of_getElem? found)) here head
  | commit found here done =>
    rcases List.mem_or_eq_of_mem_set mem with old | rfl
    · exact kept now old
    · exact pointSound grows (sound.rounds _ (List.mem_of_getElem? found)) (fun _ => RoundPoint.noConfusion)
  | stops found why =>
    rcases List.mem_or_eq_of_mem_set mem with old | rfl
    · exact kept now old
    · exact pointSound grows (sound.rounds _ (List.mem_of_getElem? found)) (stopsReady why)

end Rounds

section Rows
variable {row : OutboxRow} {marks : List (Nat × Fields)} {rows : List OutboxRow}

@[simp] theorem writeId (f : Fields) (row : OutboxRow) : (f.write row).id = row.id := rfl
@[simp] theorem writeQueued (f : Fields) (row : OutboxRow) : (f.write row).toQueued = row.toQueued := rfl

theorem memMarks (mem : row ∈ applyMarks marks rows) :
    ∃ old ∈ rows, row = old ∨ ∃ f, (old.id,f) ∈ marks ∧ row = f.write old := by
  obtain ⟨old,stored,same⟩ := List.mem_map.mp mem
  refine ⟨old,stored,?_⟩
  cases found : marks.lookup old.id with
  | none =>
    rw [found] at same
    exact .inl same.symm
  | some f =>
    rw [found] at same
    exact .inr ⟨f,lookupMem found,same.symm⟩

theorem marksId (mem : row ∈ rows) : ∃ now ∈ applyMarks marks rows, now.id = row.id := by
  refine ⟨_,List.mem_map_of_mem mem,?_⟩
  cases marks.lookup row.id <;> rfl

theorem ownRows {x : Nat} (sound : Sound db s)
    (mem : row ∈ (s.inserted.filter (fun entry => entry.1 == x)).map Prod.snd) :
    s.inserted[row.id]? = some (x,row) ∧ row.sentAt = none ∧ row.nextAttemptAt ≤ s.clock := by
  obtain ⟨entry,kept,rfl⟩ := List.mem_map.mp mem
  obtain ⟨stored,own⟩ := List.mem_filter.mp kept
  obtain ⟨i,found⟩ := List.mem_iff_getElem?.mp stored
  obtain ⟨y,first⟩ := entry
  cases beq_iff_eq.mp own
  obtain ⟨rfl,-,unsent,due⟩ := sound.numbered i _ first found
  exact ⟨found,unsent,due⟩

theorem numberedStep (sound : Sound db s) (does : Does db s a t) (i x : Nat)
    (found : t.inserted[i]? = some (x,row)) :
    row.id = i ∧ x < t.txs.length ∧ row.sentAt = none ∧ row.nextAttemptAt ≤ t.clock := by
  cases does with
  | queues active id unsent due =>
    rcases concatFrom found with old | ⟨rfl,new⟩
    · exact sound.numbered i x row old
    · cases new
      exact ⟨id,(List.getElem?_eq_some_iff.mp active).1,unsent,Int.le_of_eq due⟩
  | tick d =>
    obtain ⟨same,short,unsent,due⟩ := sound.numbered i x row found
    exact ⟨same,short,unsent,by simp only; omega⟩
  | openTx =>
    obtain ⟨same,short,rest⟩ := sound.numbered i x row found
    exact ⟨same,by simp only [List.length_append,List.length_singleton]; omega,rest⟩
  | commits =>
    obtain ⟨same,short,rest⟩ := sound.numbered i x row found
    exact ⟨same,by rwa [List.length_set],rest⟩
  | rollsBack =>
    obtain ⟨same,short,rest⟩ := sound.numbered i x row found
    exact ⟨same,by rwa [List.length_set],rest⟩
  | nothing => exact sound.numbered i x row found
  | relays => exact sound.numbered i x row found
  | produces => exact sound.numbered i x row found
  | updates => exact sound.numbered i x row found
  | commit => exact sound.numbered i x row found
  | stops => exact sound.numbered i x row found
  | cleanup => exact sound.numbered i x row found

inductive RowFrom (s t : State) (row : OutboxRow) : Prop where
  | stays (mem : row ∈ s.rows)
  | brought (x : Nat) (inserted : t.inserted[row.id]? = some (x,row)) (committed : t.txs[x]? = some .committed)
      (unsent : row.sentAt = none) (due : row.nextAttemptAt ≤ s.clock)
  | marked (old : OutboxRow) (f : Fields) (round : Round) (mem : old ∈ s.rows) (whose : round ∈ s.rounds)
      (mark : (old.id,f) ∈ round.marks) (same : row = f.write old)

theorem rowFrom (sound : Sound db s) (does : Does db s a t) (mem : row ∈ t.rows) : RowFrom s t row := by
  cases does with
  | commits active =>
    rcases List.mem_append.mp mem with old | new
    · exact .stays old
    · obtain ⟨inserted,unsent,due⟩ := ownRows sound new
      exact .brought _ inserted (List.getElem?_set_self (List.getElem?_eq_some_iff.mp active).1) unsent due
  | commit found here done =>
    obtain ⟨old,stored,rfl | ⟨f,mark,same⟩⟩ := memMarks mem
    · exact .stays stored
    · exact .marked old f _ stored (List.mem_of_getElem? found) mark same
  | cleanup => exact .stays (List.mem_filter.mp mem).1
  | tick => exact .stays mem
  | openTx => exact .stays mem
  | queues => exact .stays mem
  | nothing => exact .stays mem
  | rollsBack => exact .stays mem
  | relays => exact .stays mem
  | produces => exact .stays mem
  | updates => exact .stays mem
  | stops => exact .stays mem

theorem rowsStep (sound : Sound db s) (does : Does db s a t) (mem : row ∈ t.rows) :
    Origin t row ∧ (row.sentAt ≠ none → Acked t row.id) ∧ row.nextAttemptAt ≤ t.clock + longest := by
  have grows := doesGrows does
  have clock := grows.clock
  cases rowFrom sound does mem with
  | stays old =>
    have wait := sound.waits row old
    exact ⟨originGrows grows (sound.rows row old),fun sent => ackedGrows grows (sound.sent row old sent),by omega⟩
  | brought x inserted committed unsent due =>
    exact ⟨⟨x,row,inserted,committed,rfl⟩,fun sent => absurd unsent sent,by unfold longest; omega⟩
  | marked old f round stored whose mark same =>
    subst same
    have whole := sound.rounds round whose
    refine ⟨originGrows grows (sound.rows old stored),fun sent => ackedGrows grows ?_,?_⟩
    · cases before : old.sentAt with
      | some when => exact sound.sent old stored (by simp [before])
      | none =>
        refine whole.marks _ mark ?_
        simpa only [Fields.write,before,Option.or_none] using sent
    · cases next : f.nextAttemptAt with
      | some n =>
        have wait := whole.waits _ mark n next
        simp only [Fields.write,next,Option.getD_some]
        omega
      | none =>
        have wait := sound.waits old stored
        simp only [Fields.write,next,Option.getD_none]
        omega

theorem publishedStep (sound : Sound db s) (does : Does db s a t) : ∀ p ∈ t.published,
    ∃ row, Origin t row ∧ row.id = p.row ∧ p.record = record db.tenant row := by
  have grows := doesGrows does
  have kept : ∀ p ∈ s.published,
      ∃ row, Origin t row ∧ row.id = p.row ∧ p.record = record db.tenant row := by
    intro p mem
    obtain ⟨row,origin,same⟩ := sound.published p mem
    exact ⟨row,originGrows grows origin,same⟩
  intro p mem
  cases does with
  | produces found here head answered sent =>
    subst sent
    simp only [State.setRound] at mem
    split at mem
    · rcases List.mem_append.mp mem with old | new
      · exact kept p old
      · cases List.mem_singleton.mp new
        have whole := sound.rounds _ (List.mem_of_getElem? found)
        have origin := whole.taken _ (whole.todo _ (by rw [head]; exact List.mem_cons_self))
        exact ⟨_,originGrows grows origin,rfl,rfl⟩
    · exact kept p mem
  | tick | openTx | queues | nothing | commits | rollsBack | relays | updates | commit | stops | cleanup =>
    exact kept p mem

theorem deletedStep (sound : Sound db s) (does : Does db s a t) : ∀ row ∈ t.deleted,
    row.sentAt ≠ none ∧ Acked t row.id := by
  have grows := doesGrows does
  have kept : ∀ row ∈ s.deleted, row.sentAt ≠ none ∧ Acked t row.id :=
    fun row mem => ⟨(sound.deleted row mem).1,ackedGrows grows (sound.deleted row mem).2⟩
  intro row mem
  cases does with
  | cleanup =>
    rcases List.mem_append.mp mem with old | new
    · exact kept row old
    · obtain ⟨stored,gone⟩ := List.mem_filter.mp new
      simp only [expired,Bool.and_eq_true,decide_eq_true_eq] at gone
      have sent : row.sentAt ≠ none := by
        intro unsent
        simp [unsent] at gone
      exact ⟨sent,ackedGrows grows (sound.sent row stored sent)⟩
  | tick | openTx | queues | nothing | commits | rollsBack | relays | produces | updates | commit | stops =>
    exact kept row mem

theorem committedBefore {x y : Nat} {point : TxPoint}
    (after : (s.txs.set x point)[y]? = some .committed) : y = x ∨ s.txs[y]? = some .committed := by
  by_cases same : y = x
  · exact .inl same
  · exact .inr (by rwa [List.getElem?_set_ne (Ne.symm same)] at after)

theorem keptStep (sound : Sound db s) (does : Does db s a t) (i x : Nat)
    (found : t.inserted[i]? = some (x,row)) (committed : t.txs[x]? = some .committed) :
    (∃ now ∈ t.rows, now.id = i) ∨ ∃ old ∈ t.deleted, old.id = i := by
  cases does with
  | tick => exact sound.kept i x row found committed
  | nothing => exact sound.kept i x row found committed
  | relays => exact sound.kept i x row found committed
  | produces => exact sound.kept i x row found committed
  | updates => exact sound.kept i x row found committed
  | stops => exact sound.kept i x row found committed
  | openTx =>
    rcases concatFrom committed with before | ⟨-,new⟩
    · exact sound.kept i x row found before
    · contradiction
  | queues active =>
    rcases concatFrom found with old | ⟨-,new⟩
    · exact sound.kept i x row old committed
    · cases new
      exact TxPoint.noConfusion (Option.some.inj (active.symm.trans committed))
  | rollsBack active =>
    rcases committedBefore committed with rfl | before
    · rw [List.getElem?_set_self (List.getElem?_eq_some_iff.mp active).1] at committed
      contradiction
    · exact sound.kept i x row found before
  | commits active =>
    rcases committedBefore committed with rfl | before
    · have own : row ∈ (s.inserted.filter (fun entry => entry.1 == x)).map Prod.snd :=
        List.mem_map.mpr ⟨(x,row),List.mem_filter.mpr ⟨List.mem_of_getElem? found,beq_self_eq_true x⟩,rfl⟩
      exact .inl ⟨row,List.mem_append_right _ own,(sound.numbered i x row found).1⟩
    · rcases sound.kept i x row found before with ⟨now,mem,same⟩ | gone
      · exact .inl ⟨now,List.mem_append_left _ mem,same⟩
      · exact .inr gone
  | commit =>
    rcases sound.kept i x row found committed with ⟨now,mem,same⟩ | gone
    · obtain ⟨after,there,id⟩ := marksId mem
      exact .inl ⟨after,there,id.trans same⟩
    · exact .inr gone
  | @cleanup cfg ids reply =>
    rcases sound.kept i x row found committed with ⟨now,mem,same⟩ | ⟨old,mem,same⟩
    · cases gone : decide (now.id ∈ ids) && expired s cfg now with
      | true => exact .inr ⟨now,List.mem_append_right _ (List.mem_filter.mpr ⟨mem,gone⟩),same⟩
      | false => exact .inl ⟨now,List.mem_filter.mpr ⟨mem,by rw [gone]; rfl⟩,same⟩
    · exact .inr ⟨old,List.mem_append_left _ mem,same⟩

end Rows

theorem soundStep (sound : Sound db s) (does : Does db s a t) : Sound db t where
  numbered := fun i x _ found => numberedStep sound does i x found
  rows := fun _ mem => (rowsStep sound does mem).1
  sent := fun _ mem => (rowsStep sound does mem).2.1
  waits := fun _ mem => (rowsStep sound does mem).2.2
  published := publishedStep sound does
  rounds := roundsStep sound does
  deleted := deletedStep sound does
  kept := fun i x _ found committed => keptStep sound does i x found committed

theorem reachedSound {clock : Int} (reached : Reachable (step db) (State.init clock) s) : Sound db s := by
  refine reachableKeeps (fun sound one => soundStep sound (stepDoes one)) ?_ reached
  constructor <;> simp [State.init]

def OneSpelling (db : Database) (s : State) : Action → Prop
  | .relay service _ _ => ∀ row ∈ s.rows, row.sentAt = none → db.fold row.service = db.fold service →
      row.service = service
  | _ => True

instance (db s a) : Decidable (OneSpelling db s a) := by unfold OneSpelling; induction a using Action.casesOn <;> infer_instance

structure Owned (s : State) : Prop where
  taken : ∀ round ∈ s.rounds, ∀ row ∈ round.taken, row.service = round.service
  published : ∀ p ∈ s.published, ∃ row, Origin s row ∧ row.id = p.row ∧ p.sender = row.service

theorem ownedTaken (own : Owned s) (one : OneSpelling db s a) (does : Does db s a t) :
    ∀ round ∈ t.rounds, ∀ row ∈ round.taken, row.service = round.service := by
  intro now mem
  cases does with
  | tick | openTx | queues | nothing | commits | rollsBack | cleanup => exact own.taken now mem
  | relays cfg p fresh =>
    rcases List.mem_append.mp mem with old | new
    · exact own.taken now old
    · cases List.mem_singleton.mp new
      intro row taken
      obtain ⟨stored,same,unsent,-⟩ := memCandidates.mp (List.mem_of_mem_take taken)
      exact one row stored unsent same
  | produces found | updates found | commit found | stops found =>
    rcases List.mem_or_eq_of_mem_set mem with old | rfl
    · exact own.taken now old
    · have before := own.taken _ (List.mem_of_getElem? found)
      exact before

theorem ownedPublished (sound : Sound db s) (own : Owned s) (does : Does db s a t) :
    ∀ p ∈ t.published, ∃ row, Origin t row ∧ row.id = p.row ∧ p.sender = row.service := by
  have grows := doesGrows does
  have kept : ∀ p ∈ s.published, ∃ row, Origin t row ∧ row.id = p.row ∧ p.sender = row.service := by
    intro p mem
    obtain ⟨row,origin,same⟩ := own.published p mem
    exact ⟨row,originGrows grows origin,same⟩
  intro p mem
  cases does with
  | produces found here head answered sent =>
    subst sent
    simp only [State.setRound] at mem
    split at mem
    · rcases List.mem_append.mp mem with old | new
      · exact kept p old
      · cases List.mem_singleton.mp new
        have there := List.mem_of_getElem? found
        have whole := sound.rounds _ there
        have taken := whole.todo _ (by rw [head]; exact List.mem_cons_self)
        exact ⟨_,originGrows grows (whole.taken _ taken),rfl,(own.taken _ there _ taken).symm⟩
    · exact kept p mem
  | tick | openTx | queues | nothing | commits | rollsBack | relays | updates | commit | stops | cleanup =>
    exact kept p mem

theorem ownedRun {clock : Int} {as : List Action} (one : Along (step db) (OneSpelling db) (State.init clock) as)
    (ok : run (step db) (State.init clock) as = some s) : Sound db s ∧ Owned s := by
  have start : Sound db (State.init clock) ∧ Owned (State.init clock) := by
    constructor <;> constructor <;> simp [State.init]
  have keep {s a t} (inv : Sound db s ∧ Owned s) (one : OneSpelling db s a) (stepped : step db s a = some t) :
      Sound db t ∧ Owned t := by
    have does := stepDoes stepped
    exact ⟨soundStep inv.1 does,ownedTaken inv.2 one does,ownedPublished inv.1 inv.2 does⟩
  exact runKeeps keep start one ok

def Takes (db : Database) (s : State) (row : OutboxRow) : Prop :=
  ∀ cfg : OutboxConfig, (s.candidates db row.service).idxOf row < cfg.batch →
    ∃ t round, step db s (.relay row.service cfg .ok) = some t ∧ t.rounds = s.rounds ++ [round] ∧
      row ∈ round.taken

structure Transactional (db : Database) (s : State) : Prop where
  committed : ∀ p ∈ s.published, ∃ x row, s.inserted[p.row]? = some (x,row) ∧ s.txs[x]? = some .committed ∧
    p.sender = row.service
  acknowledged : ∀ row ∈ s.rows, row.sentAt ≠ none → Acked s row.id
  deleted : ∀ (i x : Nat) (row : OutboxRow), s.inserted[i]? = some (x,row) → s.txs[x]? = some .committed →
    (∃ now ∈ s.rows, now.id = i) ∨ ∃ old ∈ s.deleted, old.id = i ∧ old.sentAt ≠ none
  eligible : ∀ row ∈ s.rows, row.sentAt = none → row.nextAttemptAt ≤ s.clock + longest ∧
    (row.nextAttemptAt ≤ s.clock → (∃ round ∈ s.rounds, round.locks row.id = true) ∨ Takes db s row)
  same : ∀ p ∈ s.published, ∀ q ∈ s.published, p.row = q.row → p.record = q.record

theorem recordSame {db : Database} {row other : OutboxRow} (id : row.id = other.id)
    (same : row.toQueued = other.toQueued) : record db.tenant row = record db.tenant other := by
  simp only [record,id,same]

theorem dueTaken {row : OutboxRow} (mem : row ∈ s.candidates db row.service) : Takes db s row := by
  intro cfg reaches
  exact ⟨_,_,rfl,rfl,(List.mem_take_iff_idxOf_lt mem).mpr reaches⟩

theorem transactional (db : Database) (clock : Int) (as : List Action) (s : State)
    (spelled : Along (step db) (OneSpelling db) (State.init clock) as)
    (ok : run (step db) (State.init clock) as = some s) : Transactional db s := by
  obtain ⟨sound,own⟩ := ownedRun spelled ok
  refine ⟨fun p mem => ?_,sound.sent,fun i x row found committed => ?_,fun row mem unsent => ?_,?_⟩
  · obtain ⟨row,⟨x,first,inserted,committed,queued⟩,id,sender⟩ := own.published p mem
    exact ⟨x,first,by rw [← id,inserted],committed,by rw [sender,queued]⟩
  · rcases sound.kept i x row found committed with now | ⟨old,mem,id⟩
    · exact .inl now
    · exact .inr ⟨old,mem,id,(sound.deleted old mem).1⟩
  · refine ⟨sound.waits row mem,fun due => ?_⟩
    cases locked : s.locked row.id with
    | true =>
      obtain ⟨round,there,locks⟩ := List.any_eq_true.mp locked
      exact .inl ⟨round,there,locks⟩
    | false => exact .inr (dueTaken (memCandidates.mpr ⟨mem,rfl,unsent,due,locked⟩))
  · intro p memP q memQ row
    obtain ⟨a,⟨x,first,inserted,-,queued⟩,idA,sameA⟩ := sound.published p memP
    obtain ⟨b,⟨y,second,inserted',-,queued'⟩,idB,sameB⟩ := sound.published q memQ
    have id : a.id = b.id := by rw [idA,idB,row]
    rw [id,inserted'] at inserted
    cases Option.some.inj inserted
    rw [sameA,sameB,recordSame id (queued.symm.trans queued')]

def small : OutboxConfig := ⟨10,0⟩

def tenantDb : Database := ⟨"t1",id⟩

def sharedTable : List Action :=
  [.openTx,.publishTx 0 "wallet" "e0" "events.wallet" "7" "debited" "{}" "" .ok,.openTx,
    .publishTx 1 "order" "e1" "events.order" "7" "placed" "{}" "" .ok,.rollbackTx 1,.commitTx 0 .lost,
    .relay "order" small .ok,.commit 0 .ok,.relay "wallet" small .ok,.produce 1 .ok "".toUTF8,
    .update 1 .failed,.relay "wallet" small .ok,.commit 2 .ok,.rollback 1,.relay "wallet" small .ok,
    .produce 3 .ok "".toUTF8,.update 3 .ok,.commit 3 .ok,.tick 604800001,.cleanup small [0] .ok]

theorem sharedTransactional : ∃ s, run (step tenantDb) (State.init 0) sharedTable = some s ∧
    s.published.map (fun p => (p.sender,p.record.value.id)) = [("wallet","e0"),("wallet","e0")] ∧
    s.rows.length = 0 ∧ Transactional tenantDb s := by
  have facts : (run (step tenantDb) (State.init 0) sharedTable).map
      (fun s => (s.published.map (fun p => (p.sender,p.record.value.id)),s.rows.length)) =
      some ([("wallet","e0"),("wallet","e0")],0) := by decide
  obtain ⟨s,ok,same⟩ := Option.map_eq_some_iff.mp facts
  exact ⟨s,ok,congrArg Prod.fst same,congrArg Prod.snd same,transactional tenantDb 0 sharedTable s (by decide) ok⟩

/- Two services of one database whose names differ in a capital letter. -/
def twoSpellings : List Action :=
  [.openTx,.publishTx 0 "ser-Pay" "e0" "events.pay" "7" "paid" "{}" "" .ok,.commitTx 0 .ok,
    .relay "ser-pay" small .ok,.produce 0 .ok "".toUTF8]

def caseless : Database := {tenantDb with fold := fun name => if name = "ser-Pay" then "ser-pay" else name}

theorem otherSpellingSent : ¬ ∀ db clock s, Reachable (step db) (State.init clock) s → Transactional db s := by
  intro every
  have facts : (run (step caseless) (State.init 0) twoSpellings).map (fun s =>
      (s.published.map (fun p => (p.sender,p.row)),s.inserted.map (fun entry => entry.2.service))) =
      some ([("ser-pay",0)],["ser-Pay"]) := by decide
  obtain ⟨s,ok,same⟩ := Option.map_eq_some_iff.mp facts
  obtain ⟨published,inserted⟩ := Prod.mk.inj same
  obtain ⟨p,mem,sent⟩ := List.mem_map.mp (published ▸ List.mem_singleton_self ("ser-pay",0))
  obtain ⟨x,row,found,-,sender⟩ := (every caseless 0 s ⟨twoSpellings,ok⟩).committed p mem
  have wrote : row.service ∈ s.inserted.map (fun entry => entry.2.service) :=
    List.mem_map_of_mem (List.mem_of_getElem? found)
  rw [inserted,List.mem_singleton,← sender,(Prod.mk.inj sent).1] at wrote
  exact absurd wrote (by decide)

end DevkitCommon.Kafkax.Outbox
