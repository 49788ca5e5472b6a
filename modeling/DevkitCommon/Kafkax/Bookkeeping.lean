import DevkitCommon.Kafkax.Rounds

/-! What a round leaves in the table. All its rows are written in one transaction: the text
of one error that the server does not store undoes the marks of every row. -/
namespace DevkitCommon.Kafkax.Outbox
open Machine Table

section Texts
variable {msg : Bytes}

theorem lengthEncoded (cs : List Char) : cs.length ≤ cs.utf8Encode.size := by
  induction cs with
  | nil => exact Nat.zero_le _
  | cons c cs ih =>
    have positive := c.utf8Size_pos
    rw [List.utf8Encode_cons,ByteArray.size_append,List.utf8Encode_singleton,List.size_toByteArray,
      String.length_utf8EncodeChar,List.length_cons]
    omega

theorem lengthBytes (text : String) : text.length ≤ text.toByteArray.size := by
  rw [← String.utf8Encode_toList,← String.length_toList]
  exact lengthEncoded text.toList

theorem cutSize (msg : Bytes) : (cut msg).size ≤ 500 := by
  unfold cut
  split
  · simp only [ByteArray.size_extract]
    omega
  · omega

theorem storableCut : storable (cut msg) = true ↔ (cut msg).IsValidUTF8 := by
  unfold storable String.fromUTF8?
  by_cases valid : (cut msg).IsValidUTF8
  · have short := lengthBytes (String.fromUTF8 (cut msg) valid)
    have size : (String.fromUTF8 (cut msg) valid).toByteArray.size ≤ 500 := cutSize msg
    rw [dif_pos valid]
    exact ⟨fun _ => valid,fun _ => decide_eq_true (by omega)⟩
  · rw [dif_neg valid]
    exact ⟨fun fits => Bool.noConfusion fits,fun bytes => absurd bytes valid⟩

theorem storableSent (row : OutboxRow) (now : Int) : storable (sentFields row now).lastError = true := by
  show storable ByteArray.empty = true
  decide

theorem encodedValid (cs : List Char) : (cs.utf8Encode ++ msg).IsValidUTF8 ↔ msg.IsValidUTF8 := by
  induction cs with
  | nil => rw [List.utf8Encode_nil,ByteArray.empty_append]
  | cons c cs ih =>
    rw [List.utf8Encode_cons,ByteArray.append_assoc,ByteArray.isValidUTF8_utf8Encode_singleton_append_iff,ih]

theorem cutLetter {cs : List Char} (size : cs.utf8Encode.size = 499) :
    ¬ (cut (cs.utf8Encode ++ ['é'].utf8Encode)).IsValidUTF8 := by
  have letter : ['é'].utf8Encode.size = 2 := by decide
  have half : ¬ (['é'].utf8Encode.extract 0 1).IsValidUTF8 := by decide
  have long : 500 < (cs.utf8Encode ++ ['é'].utf8Encode).size := by
    rw [ByteArray.size_append,size,letter]
    omega
  have first : cs.utf8Encode.extract 0 500 = cs.utf8Encode := by
    have short : cs.utf8Encode.data.size ≤ 500 := by
      rw [ByteArray.size_data,size]
      omega
    rw [ByteArray.ext_iff,ByteArray.data_extract,Array.extract_eq_self_of_le short]
  rw [cut,if_pos long,ByteArray.extract_append,first,size,encodedValid]
  exact half

end Texts

def Accepting (r : Nat) (_ : State) : Action → Prop
  | .update q reply => q = r → reply = .ok
  | .commit q reply => q = r → reply ≠ .failed
  | .crash q => q ≠ r
  | _ => True

instance (r : Nat) (s : State) (a : Action) : Decidable (Accepting r s a) := by
  unfold Accepting
  split <;> infer_instance

def Recorded (s : State) (answers : List (OutboxRow × Option Bytes)) : Prop :=
  ∀ row err, (row,err) ∈ answers → ∃ now ∈ s.rows, now.id = row.id ∧ match err with
    | none => now.sentAt ≠ none
    | some _ => now.attempts = row.attempts + 1 ∧ ∃ moment, row.nextAttemptAt ≤ moment ∧
        moment ≤ s.clock ∧ now.nextAttemptAt = moment + backoff (row.attempts + 1)

variable {db : Database} {s t : State} {a : Action} {row : OutboxRow} {round now : Round} {i r : Nat}

def Marks (s : State) (entry : OutboxRow × Option Bytes) (mark : Nat × Fields) : Prop :=
  ∃ moment, mark = (entry.1.id,roundFields entry.1 moment entry.2) ∧ entry.1.nextAttemptAt ≤ moment ∧
    moment ≤ s.clock ∧ storable mark.2.lastError = true

def Refused (round : Round) : Prop :=
  ∃ row ∈ round.taken, ∃ err, (row,some err) ∈ round.answers ∧ storable (cut err) = false

inductive Progress (s : State) (round : Round) : Prop where
  | next (here : round.point = .next) (marked : List.Forall₂ (Marks s) round.answers round.marks)
      (order : round.taken = round.answers.map Prod.fst ++ round.todo)
  | mark {err row rest before} (here : round.point = .mark err) (head : round.todo = row::rest)
      (last : round.answers = before ++ [(row,err)]) (marked : List.Forall₂ (Marks s) before round.marks)
      (order : round.taken = before.map Prod.fst ++ round.todo)
  | failed (here : round.point = .rollback) (why : round.answers = [] ∨ Refused round)
  | finished {committed} (here : round.point = .ended committed)

theorem marksGrow {entry : OutboxRow × Option Bytes} {mark : Nat × Fields} (clock : s.clock ≤ t.clock)
    (marks : Marks s entry mark) : Marks t entry mark := by
  obtain ⟨moment,same,due,past,fits⟩ := marks
  exact ⟨moment,same,due,by omega,fits⟩

theorem progressGrows (clock : s.clock ≤ t.clock) (progress : Progress s round) : Progress t round := by
  cases progress with
  | next here marked order => exact .next here (marked.imp (fun _ _ => marksGrow clock)) order
  | mark here head last marked order =>
    exact .mark here head last (marked.imp (fun _ _ => marksGrow clock)) order
  | failed here why => exact .failed here why
  | finished here => exact .finished here

theorem refusedText {now : Int} {err : Option Bytes} (refused : storable (roundFields row now err).lastError = false) :
    ∃ text, err = some text ∧ storable (cut text) = false := by
  cases err with
  | none =>
    rw [show roundFields row now none = sentFields row now from rfl,storableSent] at refused
    contradiction
  | some text => exact ⟨text,rfl,refused⟩

theorem progressStops {p : RoundPoint} (sound : RoundSound s round) (progress : Progress s round)
    (accepting : Accepting r s a) (why : Stops s r round a p) : Progress s {round with point := p} := by
  cases why with
  | @refused reply row rest err here head why =>
    cases progress with
    | next there => rw [here] at there; contradiction
    | failed there => rw [here] at there; contradiction
    | finished there => rw [here] at there; contradiction
    | mark there head' last marked order =>
      cases head.symm.trans head'
      cases here.symm.trans there
      have unfit := why.resolve_left (fun other => other (accepting rfl))
      obtain ⟨text,rfl,refused⟩ := refusedText unfit
      have member : row ∈ round.taken := sound.todo row (by rw [head]; exact List.mem_cons_self)
      refine .failed rfl (.inr ⟨row,member,text,?_,refused⟩)
      rw [last]
      exact List.mem_append_right _ (List.mem_singleton_self _)
  | uncommitted => exact absurd rfl (accepting rfl)
  | rolledBack => exact .finished rfl
  | crashes => exact absurd rfl accepting

theorem progressStep (inv : Consistent db s) (accepting : Accepting r s a)
    (does : Does db s a t) (progress : ∀ old, s.rounds[r]? = some old → Progress s old)
    (found : t.rounds[r]? = some now) : Progress t now := by
  obtain ⟨sound,locks⟩ := inv
  have clock := (doesGrows does).clock
  have kept (there : s.rounds[r]? = some now) : Progress t now := progressGrows clock (progress now there)
  cases does with
  | tick => exact kept found
  | openTx => exact kept found
  | queues => exact kept found
  | nothing => exact kept found
  | commits => exact kept found
  | rollsBack => exact kept found
  | cleanup => exact kept found
  | relays cfg p fresh =>
    rcases concatFrom found with there | ⟨-,rfl⟩
    · exact kept there
    · rcases fresh with rfl | rfl
      · exact .next rfl .nil rfl
      · exact .failed rfl (.inl rfl)
  | @produces q reply err round row rest answer published there here head answered sent =>
    by_cases place : q = r
    · subst place
      simp only [State.setRound,List.getElem?_set_self (List.getElem?_eq_some_iff.mp there).1] at found
      cases Option.some.inj found
      cases progressGrows clock (progress round there) with
      | next _ marked order => exact .mark rfl head rfl marked order
      | mark here' => rw [here] at here'; contradiction
      | failed here' => rw [here] at here'; contradiction
      | finished here' => rw [here] at here'; contradiction
    · simp only [State.setRound,List.getElem?_set_ne place] at found
      exact kept found
  | @updates q round row rest err there here head fits =>
    by_cases place : q = r
    · subst place
      simp only [State.setRound,List.getElem?_set_self (List.getElem?_eq_some_iff.mp there).1] at found
      cases Option.some.inj found
      cases progressGrows clock (progress round there) with
      | next here' => rw [here] at here'; contradiction
      | failed here' => rw [here] at here'; contradiction
      | finished here' => rw [here] at here'; contradiction
      | mark here' head' last marked order =>
        cases head.symm.trans head'
        cases here.symm.trans here'
        have member := (sound.rounds round (List.mem_of_getElem? there)).todo row
          (by rw [head]; exact List.mem_cons_self)
        have due := (locks.due round (List.mem_of_getElem? there) row member).1
        refine .next rfl ?_ ?_
        · rw [last]
          exact List.rel_append marked (.cons ⟨s.clock,rfl,due,clock,fits⟩ .nil)
        · rw [order,last,head]
          simp only [List.map_append,List.map_cons,List.map_nil,List.append_assoc,List.singleton_append]
    · simp only [State.setRound,List.getElem?_set_ne place] at found
      exact kept found
  | @commit q reply round there here done =>
    by_cases place : q = r
    · subst place
      simp only [State.setRound,List.getElem?_set_self (List.getElem?_eq_some_iff.mp there).1] at found
      cases Option.some.inj found
      exact .finished rfl
    · simp only [State.setRound,List.getElem?_set_ne place] at found
      exact kept found
  | @stops _ q round p there why =>
    by_cases place : q = r
    · subst place
      simp only [State.setRound,List.getElem?_set_self (List.getElem?_eq_some_iff.mp there).1] at found
      cases Option.some.inj found
      exact progressGrows clock
        (progressStops (sound.rounds round (List.mem_of_getElem? there)) (progress round there) accepting why)
    · simp only [State.setRound,List.getElem?_set_ne place] at found
      exact kept found

structure Advancing (db : Database) (r : Nat) (s : State) : Prop where
  consistent : Consistent db s
  progress : ∀ round, s.rounds[r]? = some round → Progress s round

theorem advancingStep (inv : Advancing db r s) (accepting : Accepting r s a) (does : Does db s a t) :
    Advancing db r t where
  consistent := consistentStep inv.consistent does
  progress := fun _ later => progressStep inv.consistent accepting does inv.progress later

inductive Ends (s t : State) (r : Nat) (round : Round) : Action → Prop where
  | commits {reply} (here : round.point = .next) (done : round.todo = []) (clock : t.clock = s.clock)
      (rows : t.rows = applyMarks round.marks s.rows) : Ends s t r round (.commit r reply)
  | uncommitted : Ends s t r round (.commit r .failed)
  | rolledBack (here : round.point = .rollback ∨ round.point = .dead) (rows : t.rows = s.rows) :
      Ends s t r round (.rollback r)

theorem doesEnds {committed : Bool} (does : Does db s a t) (found : s.rounds[r]? = some round)
    (holds : round.holds = true) (there : t.rounds[r]? = some now) (ended : now.point = .ended committed) :
    Ends s t r round a := by
  have short := (List.getElem?_eq_some_iff.mp found).1
  have kept (same : s.rounds[r]? = some now) : Ends s t r round a := by
    cases Option.some.inj (found.symm.trans same)
    simp only [Round.holds,ended,Bool.false_eq_true] at holds
  cases does with
  | tick => exact kept there
  | openTx => exact kept there
  | queues => exact kept there
  | nothing => exact kept there
  | commits => exact kept there
  | rollsBack => exact kept there
  | cleanup => exact kept there
  | relays => exact kept (by rwa [List.getElem?_append_left short] at there)
  | @produces q =>
    by_cases place : q = r
    · subst place
      simp only [State.setRound,List.getElem?_set_self short] at there
      cases Option.some.inj there
      contradiction
    · exact kept (by simpa only [State.setRound,List.getElem?_set_ne place] using there)
  | @updates q =>
    by_cases place : q = r
    · subst place
      simp only [State.setRound,List.getElem?_set_self short] at there
      cases Option.some.inj there
      contradiction
    · exact kept (by simpa only [State.setRound,List.getElem?_set_ne place] using there)
  | @commit q reply old here' here done =>
    by_cases place : q = r
    · subst place
      cases Option.some.inj (found.symm.trans here')
      exact .commits here done rfl rfl
    · exact kept (by simpa only [State.setRound,List.getElem?_set_ne place] using there)
  | @stops _ q old p here' why =>
    by_cases place : q = r
    · subst place
      cases Option.some.inj (found.symm.trans here')
      simp only [State.setRound,List.getElem?_set_self short] at there
      cases Option.some.inj there
      cases why with
      | refused => contradiction
      | uncommitted => exact .uncommitted
      | rolledBack here => exact .rolledBack here rfl
      | crashes => contradiction
    · exact kept (by simpa only [State.setRound,List.getElem?_set_ne place] using there)

theorem lookupMark {answers : List (OutboxRow × Option Bytes)} {marks : List (Nat × Fields)} {err : Option Bytes}
    (marked : List.Forall₂ (Marks s) answers marks) (distinct : (answers.map (fun entry => entry.1.id)).Nodup)
    (mem : (row,err) ∈ answers) : ∃ moment, marks.lookup row.id = some (roundFields row moment err) ∧
      row.nextAttemptAt ≤ moment ∧ moment ≤ s.clock ∧ storable (roundFields row moment err).lastError = true := by
  induction marked with
  | nil => contradiction
  | @cons entry mark answers marks head _ ih =>
    obtain ⟨moment,rfl,due,past,fits⟩ := head
    rw [List.map_cons,List.nodup_cons] at distinct
    rcases List.mem_cons.mp mem with same | later
    · cases same
      exact ⟨moment,List.lookup_cons_self,due,past,fits⟩
    · have differs : row.id ≠ entry.1.id := fun same =>
        distinct.1 (same ▸ List.mem_map_of_mem (f := fun entry => entry.1.id) later)
      obtain ⟨when,found,rest⟩ := ih distinct.2 later
      exact ⟨when,by rw [List.lookup_cons,beq_false_of_ne differs]; exact found,rest⟩

theorem writtenMark {marks : List (Nat × Fields)} {rows : List OutboxRow} {f : Fields} (stored : row ∈ rows)
    (found : marks.lookup row.id = some f) : f.write row ∈ applyMarks marks rows :=
  List.mem_map.mpr ⟨row,stored,by rw [found]⟩

theorem committedRecorded (marked : List.Forall₂ (Marks s) round.answers round.marks)
    (distinct : (round.answers.map (fun entry => entry.1.id)).Nodup)
    (held : ∀ row err, (row,err) ∈ round.answers → row ∈ s.rows) (clock : t.clock = s.clock)
    (rows : t.rows = applyMarks round.marks s.rows) :
    Recorded t round.answers ∧ ∀ row err, (row,some err) ∈ round.answers → (cut err).IsValidUTF8 := by
  constructor
  · intro row err mem
    obtain ⟨moment,found,due,past,-⟩ := lookupMark marked distinct mem
    have written := writtenMark (held row err mem) found
    rw [← rows] at written
    refine ⟨_,written,rfl,?_⟩
    cases err with
    | none => simp only [roundFields,sentFields,Fields.write,Option.some_or,ne_eq,reduceCtorEq,not_false_eq_true]
    | some err => exact ⟨rfl,moment,due,clock ▸ past,rfl⟩
  · intro row err mem
    obtain ⟨moment,-,-,-,fits⟩ := lookupMark marked distinct mem
    exact storableCut.mp fits

theorem refusedUnrecorded (locks : Locks s) (refused : Refused round) (held : ∀ row ∈ round.taken, row ∈ s.rows)
    (rows : t.rows = s.rows) :
    ¬ Recorded t round.answers ∧ ¬ ∀ row err, (row,some err) ∈ round.answers → (cut err).IsValidUTF8 := by
  obtain ⟨row,taken,err,mem,unfit⟩ := refused
  constructor
  · intro recorded
    obtain ⟨now,stored,same,attempts,-⟩ := recorded row (some err) mem
    have as : now = row := sameRow locks.keyed (rows ▸ stored) (held row taken) same
    rw [as] at attempts
    omega
  · intro valid
    rw [storableCut.mpr (valid row err mem)] at unfit
    contradiction

theorem roundRecords (db : Database) (clock : Int) (as : List Action) (a : Action) (u t : State) (r : Nat)
    (round now : Round) (committed : Bool)
    (accepting : Along (step db) (Accepting r) (State.init clock) (as ++ [a]))
    (ok : run (step db) (State.init clock) as = some u) (one : step db u a = some t)
    (found : u.rounds[r]? = some round) (holds : round.holds = true)
    (there : t.rounds[r]? = some now) (ended : now.point = .ended committed) :
    Recorded t round.answers ↔ ∀ row err, (row,some err) ∈ round.answers → (cut err).IsValidUTF8 := by
  obtain ⟨before,after⟩ := alongAppend ok accepting
  have start : Advancing db r (State.init clock) :=
    ⟨startConsistent,fun _ later => by simp [State.init] at later⟩
  obtain ⟨⟨-,locks⟩,progress⟩ :=
    runKeeps (fun inv accept one => advancingStep inv accept (stepDoes one)) start before ok
  have mem := List.mem_of_getElem? found
  have held := locks.held round mem holds
  cases doesEnds (stepDoes one) found holds there ended with
  | uncommitted => exact absurd rfl (((alongCons one).mp after).1 rfl)
  | commits here done moment rows =>
    cases progress round found with
    | mark here' => rw [here] at here'; contradiction
    | failed here' => rw [here] at here'; contradiction
    | finished here' => rw [here] at here'; contradiction
    | next _ marked order =>
      rw [done,List.append_nil] at order
      have distinct : (round.answers.map (fun entry => entry.1.id)).Nodup := by
        have ids := List.pairwise_map.mpr ((locks.sorted round mem).imp Nat.ne_of_lt)
        rwa [order,List.map_map] at ids
      obtain ⟨recorded,valid⟩ := committedRecorded marked distinct
        (fun row err there => held row (order ▸ List.mem_map_of_mem (f := Prod.fst) there)) moment rows
      exact ⟨fun _ => valid,fun _ => recorded⟩
  | rolledBack here rows =>
    cases progress round found with
    | next here' => rcases here with h | h <;> rw [h] at here' <;> contradiction
    | mark here' => rcases here with h | h <;> rw [h] at here' <;> contradiction
    | finished here' => rcases here with h | h <;> rw [h] at here' <;> contradiction
    | failed _ why =>
      rcases why with none' | refused
      · rw [none']
        exact ⟨fun _ _ _ mem => absurd mem List.not_mem_nil,fun _ _ _ mem => absurd mem List.not_mem_nil⟩
      · obtain ⟨lost,invalid⟩ := refusedUnrecorded locks refused held rows
        exact ⟨fun recorded => absurd recorded lost,fun valid => absurd valid invalid⟩

def twoRows (err : Bytes) : List Action :=
  [.openTx,.publishTx 0 "wallet" "e0" "events.wallet" "7" "debited" "{}" "" .ok,
    .publishTx 0 "wallet" "e1" "events.wallet" "8" "debited" "{}" "" .ok,.commitTx 0 .ok,
    .relay "wallet" small .ok,.produce 0 .ok "".toUTF8,.update 0 .ok,.produce 0 .failed err,.update 0 .ok]

def Round.texts (round : Round) : List (Option Bool) :=
  round.answers.map (fun entry => entry.2.map (fun err => decide (cut err).IsValidUTF8))

def outcome (err : Bytes) (a : Action) : Option (Bool × RoundPoint × List (Option Bool) × List (Option Int)) := do
  let u ← run (step tenantDb) (State.init 0) (twoRows err)
  let t ← step tenantDb u a
  let round ← u.rounds[0]?
  let now ← t.rounds[0]?
  some (round.holds,now.point,round.texts,t.rows.map OutboxRow.sentAt)

theorem outcomeExact {err : Bytes} {a : Action} {holds : Bool} {point : RoundPoint} {texts : List (Option Bool)}
    {sent : List (Option Int)} (same : outcome err a = some (holds,point,texts,sent)) :
    ∃ u t round now, run (step tenantDb) (State.init 0) (twoRows err) = some u ∧ step tenantDb u a = some t ∧
      u.rounds[0]? = some round ∧ t.rounds[0]? = some now ∧ round.holds = holds ∧ now.point = point ∧
      round.texts = texts ∧ t.rows.map OutboxRow.sentAt = sent := by
  simp only [outcome,bind,Option.bind_eq_some_iff,Option.some.injEq,Prod.mk.injEq] at same
  obtain ⟨u,ok,t,one,round,found,now,there,holds,point,texts,sent⟩ := same
  exact ⟨u,t,round,now,ok,one,found,there,holds,point,texts,sent⟩

theorem twoRowsAccepted (err : Bytes) (a : Action) (last : Accepting 0 (State.init 0) a) :
    Along (step tenantDb) (Accepting 0) (State.init 0) (twoRows err ++ [a]) := by
  refine alongForall (q := Accepting 0 (State.init 0)) (fun b mem => ?_) _
  rcases List.mem_append.mp mem with front | back
  · simp only [twoRows,List.mem_cons,List.not_mem_nil,or_false] at front
    rcases front with rfl | rfl | rfl | rfl | rfl | rfl | rfl | rfl | rfl <;> simp [Accepting]
  · rw [List.mem_singleton.mp back]
    exact last

def leaderless : Bytes := "NOT_LEADER_OR_FOLLOWER".toUTF8

theorem leaderlessOutcome : outcome leaderless (.commit 0 .ok) =
    some (true,.ended true,[none,some true],[some 0,none]) := by decide

theorem refusedRecorded : ∃ (t : State) (round : Round), t.rows.map OutboxRow.sentAt = [some 0,none] ∧
    round.texts = [none,some true] ∧ Recorded t round.answers := by
  obtain ⟨u,t,round,now,ok,one,found,there,holds,ended,texts,sent⟩ := outcomeExact leaderlessOutcome
  have recorded := roundRecords tenantDb 0 (twoRows leaderless) (.commit 0 .ok) u t 0 round now true
    (twoRowsAccepted leaderless _ (by simp [Accepting])) ok one found holds there ended
  refine ⟨t,round,sent,texts,recorded.mpr (fun row err mem => ?_)⟩
  have valid := List.mem_map_of_mem (f := fun entry : OutboxRow × Option Bytes =>
    entry.2.map (fun err => decide (cut err).IsValidUTF8)) mem
  rw [show round.answers.map _ = _ from texts] at valid
  simpa using valid

def walletRow (id : Nat) (event key : String) : OutboxRow :=
  ⟨⟨"wallet",event,"events.wallet",key,"debited","{}","",0⟩,id,none,0,0,ByteArray.empty⟩

def firstMarked : Round :=
  ⟨"wallet",[walletRow 0 "e0" "7",walletRow 1 "e1" "8"],[walletRow 1 "e1" "8"],[(0,sentFields (walletRow 0 "e0" "7") 0)],.next,
    [(walletRow 0 "e0" "7",none)]⟩

theorem firstMarkedRun (err : Bytes) : ∃ u, run (step tenantDb) (State.init 0) ((twoRows err).take 7) = some u ∧ u.clock = 0 ∧
    u.rounds = [firstMarked] ∧ u.rows.map OutboxRow.sentAt = [none,none] := by
  have same : (twoRows err).take 7 = (twoRows ByteArray.empty).take 7 := rfl
  obtain ⟨u,ok,shown⟩ : ∃ u, run (step tenantDb) (State.init 0) ((twoRows ByteArray.empty).take 7) = some u ∧
      (u.clock,u.rounds,u.rows.map OutboxRow.sentAt) = (0,[firstMarked],[none,none]) :=
    Option.map_eq_some_iff.mp (by decide)
  simp only [Prod.mk.injEq] at shown
  exact ⟨u,same ▸ ok,shown⟩

theorem unfitOutcome {err : Bytes} (unfit : ¬ (cut err).IsValidUTF8) : outcome err (.rollback 0) =
    some (true,.ended false,[none,some false],[none,none]) := by
  have refused : storable (cut err) = false := by
    rw [← Bool.not_eq_true]
    exact fun fits => unfit (storableCut.mp fits)
  obtain ⟨u,front,clock,rounds,sent⟩ := firstMarkedRun err
  have produced : run (step tenantDb) u [.produce 0 .failed err,.update 0 .ok] = some (u.setRound 0 {firstMarked with
      point := .rollback, answers := firstMarked.answers ++ [(walletRow 1 "e1" "8",some err)]}) := by
    simp [run,step,rounds,firstMarked,State.setRound,Reply.ran,clock,roundFields,failedFields,refused]
  have all : run (step tenantDb) (State.init 0) (twoRows err) = _ :=
    (runAppend ((twoRows err).take 7) _).mpr ⟨u,front,produced⟩
  simp [outcome,all,step,State.setRound,rounds,sent,Round.texts,Round.holds,firstMarked,unfit]

def padded (n : Nat) : Bytes := (String.ofList (List.replicate n 'a' ++ ['é'])).toByteArray

theorem paddedUnfit {n : Nat} (at499 : n = 499) : ¬ (cut (padded n)).IsValidUTF8 := by
  rw [padded,String.toByteArray_ofList,List.utf8Encode_append]
  refine cutLetter (Eq.trans ?_ at499)
  clear at499
  induction n with
  | zero => rfl
  | succ n ih =>
    rw [List.replicate_succ,List.utf8Encode_cons,ByteArray.size_append,ih,show ['a'].utf8Encode.size = 1 from rfl]
    omega

theorem marksLost : ¬ ∀ db clock as a u t r round now committed,
    Along (step db) (Accepting r) (State.init clock) (as ++ [a]) →
    run (step db) (State.init clock) as = some u → step db u a = some t →
    u.rounds[r]? = some round → round.holds = true → t.rounds[r]? = some now → now.point = .ended committed →
    Recorded t round.answers := by
  intro recorded
  obtain ⟨u,t,round,now,ok,one,found,there,holds,ended,texts,sent⟩ := outcomeExact (unfitOutcome (paddedUnfit rfl))
  have all := recorded tenantDb 0 (twoRows (padded 499)) (.rollback 0) u t 0 round now false
    (twoRowsAccepted (padded 499) _ (by simp [Accepting])) ok one found holds there ended
  have first := congrArg (fun l => l[0]?) texts
  simp only [Round.texts,List.getElem?_map] at first
  obtain ⟨⟨row,err⟩,answered,took⟩ := Option.map_eq_some_iff.mp first
  cases Option.map_eq_none_iff.mp took
  obtain ⟨after,stored,-,marked⟩ := all row none (List.mem_of_getElem? answered)
  have unsent := List.mem_map_of_mem (f := OutboxRow.sentAt) stored
  rw [sent] at unsent
  exact marked (by simpa using unsent)

end DevkitCommon.Kafkax.Outbox
