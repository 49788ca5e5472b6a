import DevkitCommon.Kafkax.Bookkeeping

/-! The loop of a relay: rounds without a wait as long as they look at full batches. What a round
looked at does not tell what it has written: a full batch whose transaction fails is begun again at
once. -/
namespace DevkitCommon.Kafkax.Outbox.StartOutbox
open Machine Pairs

section Goroutine

/- Before relayOnce; in a round of it, with the n it will return; at the select; gone. -/
inductive LoopPoint where
  | ready
  | relaying (r n : Nat)
  | waiting
  | stopped
  deriving DecidableEq, Repr

/- spell are the rounds since the loop last waited, again what it went on after without a wait:
a round, or none where relayOnce had no rows to begin one with. No step reads them. -/
structure Loop where
  outbox : State
  service : String
  cfg : OutboxConfig
  point : LoopPoint
  spell : List Nat
  again : List (Option Nat)

inductive LoopAction where
  | relayOnce (reply : Reply)
  | table (a : Action)
  | returned
  | wake
  | exit
  deriving DecidableEq

def start (clock : Int) (service : String) (cfg : OutboxConfig) : Loop := ⟨.init clock,service,cfg,.ready,[],[]⟩

namespace Loop

/- The loop looks at n alone, and not at the error beside it. -/
def check (s : Loop) (round : Option Nat) (n : Nat) : Loop :=
  if n < s.cfg.batch then {s with point := .waiting} else {s with point := .ready, again := s.again ++ [round]}

def relays (s : Loop) (r : Nat) : Bool :=
  match s.point with
  | .relaying q _ => q == r
  | _ => false

def full (s : Loop) (r : Nat) : Bool :=
  match s.point with
  | .relaying q n => q == r && decide (s.cfg.batch ≤ n)
  | _ => false

def dies (s : Loop) : Action → Bool
  | .crash r => s.relays r
  | _ => false

end Loop

def step (db : Database) (s : Loop) : LoopAction → Option Loop
  | .relayOnce reply => do
    let t ← Outbox.step db s.outbox (.relay s.service s.cfg reply)
    let n := if reply = .ok then ((s.outbox.candidates db s.service).take s.cfg.batch).length else 0
    let r := s.outbox.rounds.length
    match s.point with
    | .ready =>
      if reply.ran then some {s with outbox := t, point := .relaying r n, spell := s.spell ++ [r]}
      else some (Loop.check {s with outbox := t} none n)
    | _ => none
  | .table a => do
    let t ← Outbox.step db s.outbox a
    some {s with outbox := t, point := if s.dies a then .stopped else s.point}
  | .returned =>
    match s.point with
    | .relaying r n => do
      let round ← s.outbox.rounds[r]?
      match round.point with
      | .ended _ => some (s.check (some r) n)
      | _ => none
    | _ => none
  | .wake => if s.point = .waiting then some {s with point := .ready, spell := []} else none
  | .exit => if s.point = .ready ∨ s.point = .waiting then some {s with point := .stopped} else none

end Goroutine
section Statements

structure Marked (s : State) (round : Round) : Prop where
  committed : round.point = .ended true
  marks : round.marks ≠ []
  sent : ∀ row ∈ round.taken, ∀ now ∈ s.rows, now.id = row.id → now.sentAt ≠ none

structure Paced (s : Loop) : Prop where
  after : ∀ o ∈ s.again, ∃ r round, o = some r ∧ s.outbox.rounds[r]? = some round ∧ Marked s.outbox round
  once : ∀ i ∈ s.spell, ∀ j ∈ s.spell, i ≠ j → ∀ x y, s.outbox.rounds[i]? = some x → s.outbox.rounds[j]? = some y →
    ∀ a ∈ x.taken, ∀ b ∈ y.taken, a.id ≠ b.id

def Answered (s : Loop) : LoopAction → Prop
  | .table (.produce r reply _) => s.relays r = true → reply = .ok
  | _ => True

def Calm (s : Loop) : LoopAction → Prop
  | .table (.update r reply) => s.full r = true → reply = .ok
  | .table (.commit r reply) => s.full r = true → reply ≠ .failed
  | _ => True

instance (s : Loop) (a : LoopAction) : Decidable (Answered s a) := by unfold Answered; split <;> infer_instance
instance (s : Loop) (a : LoopAction) : Decidable (Calm s a) := by unfold Calm; split <;> infer_instance

end Statements
section Rows
variable {db : Database} {s t : State} {a : Action} {row : OutboxRow} {round : Round} {r : Nat}

theorem sentStays (sound : Sound db s) (does : Does db s a t) (origin : Origin s row)
    (sent : ∀ now ∈ s.rows, now.id = row.id → now.sentAt ≠ none) : ∀ now ∈ t.rows, now.id = row.id → now.sentAt ≠ none := by
  intro now mem same
  cases does with
  | tick | openTx | queues | nothing | rollsBack | relays | produces | updates | stops => exact sent now mem same
  | commits active =>
    rcases List.mem_append.mp mem with old | new
    · exact sent now old same
    · obtain ⟨inserted,-,-⟩ := ownRows sound new
      obtain ⟨x,first,found,committed,-⟩ := origin
      rw [← same,inserted] at found
      cases Option.some.inj found
      exact TxPoint.noConfusion (Option.some.inj (active.symm.trans committed))
  | commit =>
    obtain ⟨old,stored,rfl | ⟨f,-,rfl⟩⟩ := memMarks mem
    · exact sent now stored same
    · exact fun none' => sent old stored same (Option.or_eq_none_iff.mp none').2
  | cleanup => exact sent now (List.mem_of_mem_filter mem) same

theorem markedSent {marks : List (Nat × Fields)} {taken rows : List OutboxRow}
    (ids : marks.map Prod.fst = taken.map OutboxRow.id) (sent : ∀ mark ∈ marks, mark.2.sentAt ≠ none) :
    ∀ row ∈ taken, ∀ now ∈ applyMarks marks rows, now.id = row.id → now.sentAt ≠ none := by
  intro row mem now written same
  obtain ⟨old,_,rfl⟩ := List.mem_map.mp written
  revert same
  cases found : marks.lookup old.id with
  | none =>
    intro same
    have own : row.id ∈ marks.map Prod.fst := ids ▸ List.mem_map_of_mem mem
    exact absurd (same ▸ own) (lookupAbsent.mp found)
  | some f => exact fun _ none' => sent _ (lookupMem found) (Option.or_eq_none_iff.mp none').1

theorem endedStays {committed : Bool} (does : Does db s a t) (found : s.rounds[r]? = some round)
    (ended : round.point = .ended committed) : t.rounds[r]? = some round := by
  have kept {q : Nat} {old new : Round} (there : s.rounds[q]? = some old) (open' : old.point ≠ .ended committed) :
      (s.rounds.set q new)[r]? = some round := by
    rcases setStays (i := q) (a := new) found with ⟨rfl,-⟩ | ⟨-,stays⟩
    · cases Option.some.inj (found.symm.trans there)
      exact absurd ended open'
    · exact stays
  cases does with
  | tick | openTx | queues | nothing | commits | rollsBack | cleanup => exact found
  | relays => exact concatStays found
  | produces there here => exact kept there fun closed => RoundPoint.noConfusion (here.symm.trans closed)
  | updates there here => exact kept there fun closed => RoundPoint.noConfusion (here.symm.trans closed)
  | commit there here => exact kept there fun closed => RoundPoint.noConfusion (here.symm.trans closed)
  | stops there why =>
    refine kept there fun closed => ?_
    cases why with
    | refused here => exact RoundPoint.noConfusion (here.symm.trans closed)
    | uncommitted here => exact RoundPoint.noConfusion (here.symm.trans closed)
    | rolledBack here => rcases here with here | here <;> exact RoundPoint.noConfusion (here.symm.trans closed)
    | crashes running => simp only [Round.holds,closed,Bool.false_eq_true] at running

theorem markedStays (sound : Sound db s) (does : Does db s a t) (found : s.rounds[r]? = some round)
    (marked : Marked s round) : t.rounds[r]? = some round ∧ Marked t round := by
  have taken := (sound.rounds round (List.mem_of_getElem? found)).taken
  refine ⟨endedStays does found marked.committed,marked.committed,marked.marks,fun row mem => ?_⟩
  exact sentStays sound does (taken row mem) (marked.sent row mem)

end Rows
section Flow
variable {db : Database} {s t : State} {a : Action} {row : OutboxRow} {round : Round} {r : Nat}

structure Writes (round : Round) (done : List OutboxRow) : Prop where
  order : round.taken = done ++ round.todo
  marks : round.marks.map Prod.fst = done.map OutboxRow.id
  sent : ∀ mark ∈ round.marks, mark.2.sentAt ≠ none

inductive Flows (s : State) (round : Round) : Prop where
  | next {done} (here : round.point = .next) (writes : Writes round done)
  | mark {done} (here : round.point = .mark none) (writes : Writes round done)
  | ended (marked : Marked s round)

theorem flowsKept (sound : Sound db s) (does : Does db s a t) (found : s.rounds[r]? = some round)
    (flows : Flows s round) : Flows t round := by
  cases flows with
  | next here writes => exact .next here writes
  | mark here writes => exact .mark here writes
  | ended marked => exact .ended (markedStays sound does found marked).2

theorem updatedWrites {done rest : List OutboxRow} (writes : Writes round done) (head : round.todo = row::rest) (now : Int) :
    Writes {round with todo := rest, marks := round.marks ++ [(row.id,roundFields row now none)], point := .next} (done ++ [row]) where
  order := writes.order.trans (by rw [head,List.append_assoc]; rfl)
  marks := by
    rw [List.map_append,List.map_append,writes.marks]
    rfl
  sent := fun mark mem => by
    rcases List.mem_append.mp mem with before | new
    · exact writes.sent mark before
    · rw [List.mem_singleton.mp new]
      exact Option.some_ne_none _

theorem committedMarked {done : List OutboxRow} (writes : Writes round done) (some' : round.taken ≠ []) (none' : round.todo = [])
    (rows : t.rows = applyMarks round.marks s.rows) : Marked t {round with point := .ended true} := by
  have all : round.taken = done := by rw [writes.order,none',List.append_nil]
  have ids : round.marks.map Prod.fst = round.taken.map OutboxRow.id := all ▸ writes.marks
  refine ⟨rfl,fun empty => some' ?_,?_⟩
  · have none'' : round.marks = [] := empty
    rw [none''] at ids
    exact List.map_eq_nil_iff.mp ids.symm
  · rw [rows]
    exact markedSent ids writes.sent

theorem flowsOn {p : RoundPoint} (flows : Flows s round) (accepting : Accepting r s a) : ¬ Stops s r round a p := by
  intro why
  cases why with
  | @refused reply row rest err here head why =>
    cases flows with
    | next here' => exact RoundPoint.noConfusion (here.symm.trans here')
    | ended marked => exact RoundPoint.noConfusion (here.symm.trans marked.committed)
    | mark here' =>
      obtain rfl := RoundPoint.mark.inj (here.symm.trans here')
      rcases why with failed | unfit
      · exact absurd (accepting rfl) failed
      · exact Bool.noConfusion (unfit.symm.trans (storableSent row s.clock))
  | uncommitted => exact absurd rfl (accepting rfl)
  | rolledBack here =>
    cases flows with
    | next here' => rcases here with here | here <;> exact RoundPoint.noConfusion (here.symm.trans here')
    | mark here' => rcases here with here | here <;> exact RoundPoint.noConfusion (here.symm.trans here')
    | ended marked => rcases here with here | here <;> exact RoundPoint.noConfusion (here.symm.trans marked.committed)
  | crashes => exact absurd rfl accepting

theorem flowsStep (sound : Sound db s) (does : Does db s a t) (found : s.rounds[r]? = some round)
    (some' : round.taken ≠ []) (flows : Flows s round) (accepting : Accepting r s a)
    (answered : ∀ reply err, a = .produce r reply err → reply = .ok) :
    ∃ now, t.rounds[r]? = some now ∧ now.taken = round.taken ∧ Flows t now := by
  have whole := does
  have kept (stays : t.rounds[r]? = some round) : ∃ now, t.rounds[r]? = some now ∧ now.taken = round.taken ∧ Flows t now :=
    ⟨round,stays,rfl,flowsKept sound whole found flows⟩
  have other {q : Nat} {new : Round} (differs : r ≠ q) : (s.rounds.set q new)[r]? = some round :=
    (List.getElem?_set_ne (Ne.symm differs)).trans found
  have own {new : Round} : (s.rounds.set r new)[r]? = some new := List.getElem?_set_self (List.getElem?_eq_some_iff.mp found).1
  cases does with
  | tick | openTx | queues | nothing | commits | rollsBack | cleanup => exact kept found
  | relays => exact kept (concatStays found)
  | @produces q reply err old row rest answer published there here head isAnswer sent =>
    by_cases place : r = q
    · subst place
      cases Option.some.inj (found.symm.trans there)
      rw [if_pos (answered reply err rfl)] at isAnswer
      refine ⟨_,own,rfl,?_⟩
      cases flows with
      | next _ writes => exact .mark (congrArg RoundPoint.mark isAnswer) ⟨writes.order,writes.marks,writes.sent⟩
      | mark here' => exact RoundPoint.noConfusion (here.symm.trans here')
      | ended marked => exact RoundPoint.noConfusion (here.symm.trans marked.committed)
    · exact kept (other place)
  | @updates q old row rest err there here head fits =>
    by_cases place : r = q
    · subst place
      cases Option.some.inj (found.symm.trans there)
      refine ⟨_,own,rfl,?_⟩
      cases flows with
      | next here' => exact RoundPoint.noConfusion (here.symm.trans here')
      | mark here' writes =>
        obtain rfl := RoundPoint.mark.inj (here.symm.trans here')
        exact .next rfl (updatedWrites writes head s.clock)
      | ended marked => exact RoundPoint.noConfusion (here.symm.trans marked.committed)
    · exact kept (other place)
  | @commit q reply old there here todo =>
    by_cases place : r = q
    · subst place
      cases Option.some.inj (found.symm.trans there)
      refine ⟨_,own,rfl,?_⟩
      cases flows with
      | next _ writes => exact .ended (committedMarked writes some' todo rfl)
      | mark here' => exact RoundPoint.noConfusion (here.symm.trans here')
      | ended marked => exact RoundPoint.noConfusion (here.symm.trans marked.committed)
    · exact kept (other place)
  | @stops _ q old p there why =>
    by_cases place : r = q
    · subst place
      cases Option.some.inj (found.symm.trans there)
      exact absurd why (flowsOn flows accepting)
    · exact kept (other place)

end Flow
section Runs
variable {db : Database} {s t : Loop} {u : State} {a : Action} {r n : Nat}

theorem batchPositive (cfg : OutboxConfig) : 0 < cfg.batch := by
  unfold OutboxConfig.batch
  split <;> omega

def LoopPoint.passed : LoopPoint → Nat → Prop
  | .ready,_ => True
  | .relaying r _,q => q ≠ r
  | _,_ => False

structure Pacing (db : Database) (s : Loop) : Prop where
  consistent : Consistent db s.outbox
  current : ∀ r n, s.point = .relaying r n → ∃ round, s.outbox.rounds[r]? = some round ∧
    (s.cfg.batch ≤ n → round.taken ≠ [] ∧ Flows s.outbox round)
  known : ∀ q ∈ s.spell, q < s.outbox.rounds.length
  passed : ∀ q ∈ s.spell, s.point.passed q → ∃ round, s.outbox.rounds[q]? = some round ∧ Marked s.outbox round
  paced : Paced s

theorem startPacing (clock : Int) (service : String) (cfg : OutboxConfig) : Pacing db (start clock service cfg) where
  consistent := startConsistent
  current := fun _ _ here => LoopPoint.noConfusion here
  known := fun _ mem => absurd mem List.not_mem_nil
  passed := fun _ mem => absurd mem List.not_mem_nil
  paced := ⟨fun _ mem => absurd mem List.not_mem_nil,fun _ mem => absurd mem List.not_mem_nil⟩

theorem calmAccepts (here : s.point = .relaying r n) (big : s.cfg.batch ≤ n) (calm : Calm s (.table a))
    (alive : s.dies a = false) : Accepting r s.outbox a := by
  have own : s.full r = true := by
    unfold Loop.full
    rw [here]
    exact Bool.and_eq_true_iff.mpr ⟨beq_self_eq_true r,decide_eq_true big⟩
  cases a with
  | update q reply => exact fun same => calm (same ▸ own)
  | commit q reply => exact fun same => calm (same ▸ own)
  | crash q =>
    intro same
    have dead : s.dies (.crash q) = true := by
      unfold Loop.dies Loop.relays
      rw [here,same]
      exact beq_self_eq_true r
    exact Bool.noConfusion (dead.symm.trans alive)
  | _ => trivial

theorem answeredOk (here : s.point = .relaying r n) (answered : Answered s (.table a)) (reply : Reply) (err : Bytes)
    (is : a = .produce r reply err) : reply = .ok := by
  subst is
  refine answered ?_
  unfold Loop.relays
  rw [here]
  exact beq_self_eq_true r

theorem pacedTable (inv : Pacing db s) (does : Does db s.outbox a u) (point : LoopPoint) :
    Paced {s with outbox := u, point := point} where
  after := fun o mem => by
    obtain ⟨r,round,is,found,marked⟩ := inv.paced.after o mem
    exact ⟨r,round,is,markedStays inv.consistent.sound does found marked⟩
  once := fun i first j second apart x y foundX foundY => by
    have old {q : Nat} {now : Round} (mem : q ∈ s.spell) (found : u.rounds[q]? = some now) :
        ∃ round, s.outbox.rounds[q]? = some round ∧ now.taken = round.taken := by
      rcases roundBefore does found with ⟨round,there,same,-,-⟩ | ⟨last,-⟩
      · exact ⟨round,there,same⟩
      · exact absurd last (Nat.ne_of_lt (inv.known q mem))
    obtain ⟨x',thereX,sameX⟩ := old first foundX
    obtain ⟨y',thereY,sameY⟩ := old second foundY
    rw [sameX,sameY]
    exact inv.paced.once i first j second apart x' y' thereX thereY

theorem roundsGrow (does : Does db s.outbox a u) : s.outbox.rounds.length ≤ u.rounds.length := by
  cases does with
  | tick | openTx | queues | nothing | commits | rollsBack | cleanup => exact Nat.le_refl _
  | relays =>
    rw [List.length_append]
    exact Nat.le_add_right _ _
  | produces | updates | commit | stops => exact Nat.le_of_eq List.length_set.symm

theorem tableStep (inv : Pacing db s) (does : Does db s.outbox a u) (answered : Answered s (.table a))
    (calm : Calm s (.table a)) : Pacing db {s with outbox := u, point := if s.dies a then .stopped else s.point} where
  consistent := consistentStep inv.consistent does
  current := fun r n here => by
    split at here
    · contradiction
    · rename_i alive
      obtain ⟨round,found,flows⟩ := inv.current r n here
      by_cases big : s.cfg.batch ≤ n
      · obtain ⟨some',flowing⟩ := flows big
        have accepting := calmAccepts here big calm (Bool.eq_false_iff.mpr alive)
        obtain ⟨now,there,same,later⟩ := flowsStep inv.consistent.sound does found some' flowing accepting (answeredOk here answered)
        exact ⟨now,there,fun _ => ⟨same ▸ some',later⟩⟩
      · have short := Nat.lt_of_lt_of_le (List.getElem?_eq_some_iff.mp found).1 (roundsGrow does)
        exact ⟨u.rounds[r],List.getElem?_eq_getElem short,fun other => absurd other big⟩
  known := fun q mem => Nat.lt_of_lt_of_le (inv.known q mem) (roundsGrow does)
  passed := fun q mem past => by
    have before : s.point.passed q := by
      cases dead : s.dies a with
      | false => simpa only [dead,Bool.false_eq_true,if_false] using past
      | true => exact absurd past (by simp only [dead,if_true,LoopPoint.passed,not_false_eq_true])
    obtain ⟨round,found,marked⟩ := inv.passed q mem before
    exact ⟨round,markedStays inv.consistent.sound does found marked⟩
  paced := pacedTable inv does _

theorem relayStep {reply : Reply} (inv : Pacing db s) (here : s.point = .ready) (ran : reply.ran = true)
    (one : Outbox.step db s.outbox (.relay s.service s.cfg reply) = some u)
    (count : n = if reply = .ok then ((s.outbox.candidates db s.service).take s.cfg.batch).length else 0) :
    Pacing db {s with outbox := u, point := .relaying s.outbox.rounds.length n, spell := s.spell ++ [s.outbox.rounds.length]} := by
  have does := stepDoes one
  obtain ⟨p,rounds,ok⟩ : ∃ p, u.rounds = s.outbox.rounds ++ [begun s.service ((s.outbox.candidates db s.service).take s.cfg.batch) p] ∧
      (reply = .ok → p = .next) := by
    simp only [Outbox.step,ran,if_true,Option.some.injEq] at one
    rw [← one]
    exact ⟨_,rfl,fun ok => if_pos ok⟩
  have new : u.rounds[s.outbox.rounds.length]? = some (begun s.service ((s.outbox.candidates db s.service).take s.cfg.batch) p) := by
    rw [rounds]
    exact List.getElem?_concat_length
  have marked : ∀ q ∈ s.spell, ∃ round, u.rounds[q]? = some round ∧ Marked s.outbox round ∧ Marked u round := fun q mem => by
    obtain ⟨round,found,before⟩ := inv.passed q mem (by rw [here]; trivial)
    obtain ⟨stays,later⟩ := markedStays inv.consistent.sound does found before
    exact ⟨round,stays,before,later⟩
  have fresh {q : Nat} {x : Round} (mem : q ∈ s.spell) (found : u.rounds[q]? = some x) : ∀ a ∈ x.taken,
      ∀ b ∈ (s.outbox.candidates db s.service).take s.cfg.batch, a.id ≠ b.id := fun a old b taken same => by
    obtain ⟨round,stays,before,-⟩ := marked q mem
    cases Option.some.inj (found.symm.trans stays)
    obtain ⟨stored,-,unsent,-,-⟩ := memTaken taken
    exact before.sent a old b stored same.symm unsent
  refine ⟨consistentStep inv.consistent does,fun r n' same => ?_,fun q mem => ?_,fun q mem past => ?_,?_,?_⟩
  · obtain ⟨rfl,rfl⟩ := LoopPoint.relaying.inj same
    refine ⟨_,new,fun big => ?_⟩
    have positive := batchPositive s.cfg
    by_cases isOk : reply = .ok
    · rw [if_pos isOk] at count
      refine ⟨fun empty => ?_,.next (ok isOk) (show Writes _ [] from ⟨rfl,rfl,fun _ mem => absurd mem List.not_mem_nil⟩)⟩
      have none' : ((s.outbox.candidates db s.service).take s.cfg.batch).length = 0 := congrArg List.length empty
      have most : s.cfg.batch ≤ n := big
      omega
    · rw [if_neg isOk] at count
      have most : s.cfg.batch ≤ n := big
      omega
  · rw [rounds,List.length_append]
    rcases List.mem_append.mp mem with old | last
    · exact Nat.lt_add_right _ (inv.known q old)
    · rw [List.mem_singleton.mp last]
      exact Nat.lt_succ_self _
  · rcases List.mem_append.mp mem with old | last
    · obtain ⟨round,stays,-,later⟩ := marked q old
      exact ⟨round,stays,later⟩
    · exact absurd (List.mem_singleton.mp last) past
  · exact (pacedTable inv does s.point).after
  · intro i first j second apart x y foundX foundY
    rcases List.mem_append.mp first with oldX | lastX
    · rcases List.mem_append.mp second with oldY | lastY
      · exact (pacedTable inv does s.point).once i oldX j oldY apart x y foundX foundY
      · obtain rfl := List.mem_singleton.mp lastY
        cases Option.some.inj (new.symm.trans foundY)
        exact fresh oldX foundX
    · obtain rfl := List.mem_singleton.mp lastX
      cases Option.some.inj (new.symm.trans foundX)
      rcases List.mem_append.mp second with oldY | lastY
      · exact fun a taken b old same => fresh oldY foundY b old a taken same.symm
      · exact absurd (List.mem_singleton.mp lastY).symm apart

theorem returnedStep {round : Round} {committed : Bool} (inv : Pacing db s) (here : s.point = .relaying r n)
    (found : s.outbox.rounds[r]? = some round) (ended : round.point = .ended committed) : Pacing db (s.check (some r) n) := by
  unfold Loop.check
  split
  · refine ⟨inv.consistent,fun _ _ same => LoopPoint.noConfusion same,inv.known,fun _ _ past => past.elim,?_⟩
    exact ⟨inv.paced.after,inv.paced.once⟩
  · rename_i big
    obtain ⟨now,there,flows⟩ := inv.current r n here
    cases Option.some.inj (found.symm.trans there)
    have marked : Marked s.outbox round := by
      cases (flows (Nat.not_lt.mp big)).2 with
      | next here' => exact RoundPoint.noConfusion (here'.symm.trans ended)
      | mark here' => exact RoundPoint.noConfusion (here'.symm.trans ended)
      | ended marked => exact marked
    refine ⟨inv.consistent,fun _ _ same => LoopPoint.noConfusion same,inv.known,fun q mem _ => ?_,?_,inv.paced.once⟩
    · by_cases same : q = r
      · exact ⟨round,same ▸ found,marked⟩
      · exact inv.passed q mem (by rw [here]; exact same)
    · intro o mem
      rcases List.mem_append.mp mem with old | last
      · exact inv.paced.after o old
      · exact ⟨r,round,List.mem_singleton.mp last,found,marked⟩

theorem stepPacing {a : LoopAction} (inv : Pacing db s) (meets : Answered s a ∧ Calm s a) (one : step db s a = some t) :
    Pacing db t := by
  obtain ⟨answered,calm⟩ := meets
  cases a with
  | relayOnce reply =>
    simp only [step,bind,Option.bind_eq_some_iff] at one
    obtain ⟨u,first,last⟩ := one
    split at last <;> try contradiction
    rename_i here
    split at last
    · rename_i ran
      cases Option.some.inj last
      exact relayStep inv here ran first rfl
    · rename_i failed
      cases Option.some.inj last
      have not : reply ≠ .ok := fun ok => failed (by rw [ok]; rfl)
      rw [if_neg not,Loop.check,if_pos (batchPositive s.cfg)]
      refine ⟨consistentStep inv.consistent (stepDoes first),fun _ _ same => LoopPoint.noConfusion same,fun q mem => ?_,
        fun _ _ past => past.elim,pacedTable inv (stepDoes first) _⟩
      exact Nat.lt_of_lt_of_le (inv.known q mem) (roundsGrow (stepDoes first))
  | table a =>
    simp only [step,bind,Option.bind_eq_some_iff] at one
    obtain ⟨u,first,last⟩ := one
    cases Option.some.inj last
    exact tableStep inv (stepDoes first) answered calm
  | returned =>
    simp only [step] at one
    split at one <;> try contradiction
    rename_i r n here
    obtain ⟨round,found,last⟩ := Option.bind_eq_some_iff.mp one
    split at last <;> try contradiction
    rename_i ended
    cases Option.some.inj last
    exact returnedStep inv here found ended
  | wake =>
    simp only [step] at one
    split at one <;> try contradiction
    cases one
    exact ⟨inv.consistent,fun _ _ same => LoopPoint.noConfusion same,fun _ mem => absurd mem List.not_mem_nil,
      fun _ mem => absurd mem List.not_mem_nil,inv.paced.after,fun _ mem => absurd mem List.not_mem_nil⟩
  | exit =>
    simp only [step] at one
    split at one <;> try contradiction
    cases one
    exact ⟨inv.consistent,fun _ _ same => LoopPoint.noConfusion same,inv.known,fun _ _ past => past.elim,
      inv.paced.after,inv.paced.once⟩

theorem fullExact : s.full r = true ↔ ∃ n, s.point = .relaying r n ∧ s.cfg.batch ≤ n := by
  unfold Loop.full
  cases here : s.point with
  | relaying q n =>
    rw [Bool.and_eq_true_iff,beq_iff_eq,decide_eq_true_eq]
    constructor
    · rintro ⟨rfl,big⟩
      exact ⟨n,rfl,big⟩
    · rintro ⟨m,same,big⟩
      cases same
      exact ⟨rfl,big⟩
  | _ =>
    refine ⟨fun no => Bool.noConfusion no,?_⟩
    rintro ⟨m,same,-⟩
    cases same

theorem returnsUnpaced (db : Database) {s : Loop} {round : Round} (here : s.point = .relaying r n) (big : s.cfg.batch ≤ n)
    (found : s.outbox.rounds[r]? = some round) (ended : round.point = .ended false) :
    ∃ w, step db s .returned = some w ∧ w.point = .ready ∧ ¬ Paced w := by
  have checked : s.check (some r) n = {s with point := .ready, again := s.again ++ [some r]} := if_neg (Nat.not_lt.mpr big)
  refine ⟨s.check (some r) n,?_,by rw [checked],fun paced => ?_⟩
  · simp only [step,here,found,ended,bind,Option.bind_some]
  · rw [checked] at paced
    obtain ⟨q,now,is,there,marked⟩ := paced.after (some r) (List.mem_append_right _ (List.mem_singleton_self _))
    cases Option.some.inj is
    cases Option.some.inj (found.symm.trans there)
    exact absurd (ended.symm.trans marked.committed) (by decide)

theorem failsUnpaced {a : LoopAction} (fails : ¬ Calm s a) (one : step db s a = some t) :
    ∃ bs w, run (step db) t bs = some w ∧ w.point = .ready ∧ ¬ Paced w := by
  cases a with
  | table a =>
    simp only [step,bind,Option.bind_eq_some_iff] at one
    obtain ⟨u,first,last⟩ := one
    cases Option.some.inj last
    cases a with
    | update q reply =>
      obtain ⟨isFull,failed⟩ := Classical.not_imp.mp fails
      obtain ⟨n,here,big⟩ := fullExact.mp isFull
      simp only [Outbox.step,bind,Option.bind_eq_some_iff] at first
      obtain ⟨round,found,last⟩ := first
      split at last <;> try contradiction
      rw [if_neg fun both => failed both.1] at last
      cases Option.some.inj last
      have short := (List.getElem?_eq_some_iff.mp found).1
      -- the transaction rolls back, and relayOnce returns
      let v : Loop := {s with outbox := (s.outbox.setRound q {round with point := .rollback})}
      let w : Loop := {s with outbox := (v.outbox.setRound q {round with point := .ended false})}
      have rolled : step db v (.table (.rollback q)) = some w := by
        simp only [step,Outbox.step,v,w,State.setRound,List.getElem?_set_self short,bind,Option.bind_some]
        rfl
      have there : w.outbox.rounds[q]? = some {round with point := .ended false} := by
        simp only [w,v,State.setRound]
        exact List.getElem?_set_self (by rw [List.length_set]; exact short)
      obtain ⟨z,returned,ready,unpaced⟩ := returnsUnpaced db (s := w) here big there rfl
      exact ⟨[.table (.rollback q),.returned],z,runCons.mpr ⟨w,rolled,runCons.mpr ⟨z,returned,rfl⟩⟩,ready,unpaced⟩
    | commit q reply =>
      obtain ⟨isFull,failed⟩ := Classical.not_imp.mp fails
      obtain ⟨n,here,big⟩ := fullExact.mp isFull
      obtain rfl := not_not.mp failed
      simp only [Outbox.step,bind,Option.bind_eq_some_iff] at first
      obtain ⟨round,found,last⟩ := first
      split at last <;> try contradiction
      cases Option.some.inj last
      have short := (List.getElem?_eq_some_iff.mp found).1
      let w : Loop := {s with outbox := (s.outbox.setRound q {round with point := .ended false})}
      have there : w.outbox.rounds[q]? = some {round with point := .ended false} := List.getElem?_set_self short
      obtain ⟨z,returned,ready,unpaced⟩ := returnsUnpaced db (s := w) here big there rfl
      exact ⟨[.returned],z,runCons.mpr ⟨z,returned,rfl⟩,ready,unpaced⟩
    | _ => exact absurd trivial fails
  | _ => exact absurd trivial fails

theorem relayPaced (db : Database) (service : String) (clock : Int) (cfg : OutboxConfig) :
    (∀ as t, Along (step db) Answered (start clock service cfg) as → Along (step db) Calm (start clock service cfg) as →
      run (step db) (start clock service cfg) as = some t → Paced t) ∧
    ∀ s a t, ¬ Calm s a → step db s a = some t → ∃ bs w, run (step db) t bs = some w ∧ w.point = .ready ∧ ¬ Paced w := by
  refine ⟨fun as t answered calm ok => ?_,fun s a t fails one => failsUnpaced fails one⟩
  exact (runKeeps (fun inv meets one => stepPacing inv meets one) (startPacing clock service cfg) (alongAnd answered calm) ok).paced

def single : OutboxConfig := ⟨1,0⟩

def oneRow (r : Nat) : List LoopAction :=
  [.relayOnce .ok,.table (.produce r .ok "".toUTF8),.table (.update r .ok)]

def queued (ids : List String) : List LoopAction :=
  .table .openTx::ids.map (fun id => .table (.publishTx 0 "wallet" id "events.wallet" "7" "debited" "{}" "" .ok)) ++
    [.table (.commitTx 0 .ok)]

def twoBatches : List LoopAction :=
  queued ["e0","e1"] ++ oneRow 0 ++ [.table (.commit 0 .ok),.returned] ++ oneRow 1 ++ [.table (.commit 1 .lost),.returned] ++
    [.relayOnce .ok,.table (.commit 2 .ok),.returned]

theorem twoBatchesPaced : ∃ t, run (step tenantDb) (start 0 "wallet" single) twoBatches = some t ∧ t.point = .waiting ∧
    t.again = [some 0,some 1] ∧ Paced t := by
  obtain ⟨t,ok,shown⟩ : ∃ t, run (step tenantDb) (start 0 "wallet" single) twoBatches = some t ∧
      (t.point,t.again) = (.waiting,[some 0,some 1]) :=
    Option.map_eq_some_iff.mp (by decide +kernel)
  obtain ⟨point,again⟩ := Prod.mk.inj shown
  exact ⟨t,ok,point,again,(relayPaced tenantDb "wallet" 0 single).1 twoBatches t (by decide +kernel) (by decide +kernel) ok⟩

/- The commit of a full batch fails: its row is published again, with no wait before it. -/
def uncommitted : List LoopAction := queued ["e0"] ++ oneRow 0 ++ [.table (.commit 0 .failed),.returned] ++ oneRow 1

theorem batchRepeated : LoopAction.wake ∉ uncommitted ∧ Along (step tenantDb) Answered (start 0 "wallet" single) uncommitted ∧
    ∃ t, run (step tenantDb) (start 0 "wallet" single) uncommitted = some t ∧ t.outbox.published.map Publication.row = [0,0] ∧
      ¬ Paced t := by
  obtain ⟨t,ok,shown⟩ : ∃ t, run (step tenantDb) (start 0 "wallet" single) uncommitted = some t ∧
      (t.outbox.published.map Publication.row,t.again,t.outbox.rounds[0]?.map Round.point) = ([0,0],[some 0],some (.ended false)) :=
    Option.map_eq_some_iff.mp (by decide +kernel)
  simp only [Prod.mk.injEq] at shown
  obtain ⟨twice,again,undone⟩ := shown
  refine ⟨by decide +kernel,by decide +kernel,t,ok,twice,fun paced => ?_⟩
  obtain ⟨r,round,is,found,marked⟩ := paced.after (some 0) (by rw [again]; exact List.mem_singleton_self _)
  cases Option.some.inj is
  rw [found,Option.map_some,marked.committed] at undone
  exact absurd undone (by decide)

end Runs
end DevkitCommon.Kafkax.Outbox.StartOutbox
