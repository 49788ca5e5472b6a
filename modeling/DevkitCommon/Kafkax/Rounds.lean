import DevkitCommon.Kafkax.Relay
import DevkitCommon.Lib.Table

/-! The row locks of the rounds: the rows of an open round stand in the table as the round
has read them, and no two open rounds have a row in common. -/
namespace DevkitCommon.Kafkax.Outbox
open Machine Table

structure Locks (s : State) : Prop where
  keyed : Keyed OutboxRow.id s.rows
  sorted : ∀ round ∈ s.rounds, round.taken.Pairwise (fun a b => a.id < b.id)
  due : ∀ round ∈ s.rounds, ∀ row ∈ round.taken, row.nextAttemptAt ≤ s.clock ∧ row.sentAt = none
  held : ∀ round ∈ s.rounds, round.holds = true → ∀ row ∈ round.taken, row ∈ s.rows
  apart : ∀ (i j : Nat) (x y : Round), s.rounds[i]? = some x → s.rounds[j]? = some y → x.holds = true →
    y.holds = true → i ≠ j → ∀ a ∈ x.taken, ∀ b ∈ y.taken, a.id ≠ b.id
  marks : ∀ round ∈ s.rounds, ∀ mark ∈ round.marks, ∃ row ∈ round.taken, row.id = mark.1

variable {db : Database} {s t : State} {a : Action} {row : OutboxRow} {round old now : Round} {i r : Nat}

theorem lockedExact {id : Nat} :
    s.locked id = true ↔ ∃ round ∈ s.rounds, round.holds = true ∧ ∃ row ∈ round.taken, row.id = id := by
  simp only [State.locked,Round.locks,List.any_eq_true,Bool.and_eq_true,beq_iff_eq]

theorem stopsHolds {p : RoundPoint} (why : Stops s r round a p) (holds : {round with point := p}.holds = true) :
    round.holds = true := by
  cases why with
  | refused here => simp only [Round.holds,here]
  | uncommitted => contradiction
  | rolledBack => contradiction
  | crashes running => exact running

theorem roundBefore (does : Does db s a t) (found : t.rounds[i]? = some now) :
    (∃ old, s.rounds[i]? = some old ∧ now.taken = old.taken ∧ now.service = old.service ∧
        (now.holds = true → old.holds = true)) ∨
      i = s.rounds.length ∧ ∃ service n p, now = begun service ((s.candidates db service).take n) p := by
  have kept (there : s.rounds[i]? = some now) : ∃ old, s.rounds[i]? = some old ∧ now.taken = old.taken ∧
      now.service = old.service ∧ (now.holds = true → old.holds = true) := ⟨now,there,rfl,rfl,fun h => h⟩
  have replaced {q : Nat} {old new : Round} (there : s.rounds[q]? = some old)
      (found : (s.rounds.set q new)[i]? = some now) (same : new.taken = old.taken)
      (service : new.service = old.service) (holds : new.holds = true → old.holds = true) :
      ∃ old, s.rounds[i]? = some old ∧ now.taken = old.taken ∧ now.service = old.service ∧
        (now.holds = true → old.holds = true) := by
    by_cases place : q = i
    · subst place
      rw [List.getElem?_set_self (List.getElem?_eq_some_iff.mp there).1] at found
      cases Option.some.inj found
      exact ⟨old,there,same,service,holds⟩
    · rw [List.getElem?_set_ne place] at found
      exact kept found
  cases does with
  | tick => exact .inl (kept found)
  | openTx => exact .inl (kept found)
  | queues => exact .inl (kept found)
  | nothing => exact .inl (kept found)
  | commits => exact .inl (kept found)
  | rollsBack => exact .inl (kept found)
  | cleanup => exact .inl (kept found)
  | relays cfg p =>
    rcases concatFrom found with there | ⟨last,same⟩
    · exact .inl (kept there)
    · exact .inr ⟨last,_,_,p,same⟩
  | produces there here => exact .inl (replaced there found rfl rfl (fun _ => by simp only [Round.holds,here]))
  | updates there here => exact .inl (replaced there found rfl rfl (fun _ => by simp only [Round.holds,here]))
  | commit there here => exact .inl (replaced there found rfl rfl (fun _ => by simp only [Round.holds,here]))
  | stops there why => exact .inl (replaced there found rfl rfl (stopsHolds why))

section Candidates
variable {service : String} {n : Nat}

theorem memTaken (mem : row ∈ (s.candidates db service).take n) : row ∈ s.rows ∧ db.fold row.service = db.fold service ∧
    row.sentAt = none ∧ row.nextAttemptAt ≤ s.clock ∧ s.locked row.id = false :=
  memCandidates.mp (List.mem_of_mem_take mem)

theorem candidatesSorted (service : String) (locks : Locks s) : (s.candidates db service).Pairwise (fun a b => a.id < b.id) := by
  have order : (s.candidates db service).Pairwise (fun a b => a.id ≤ b.id) :=
    List.pairwise_insertionSort (fun a b : OutboxRow => a.id ≤ b.id) _
  have distinct : ((s.candidates db service).map OutboxRow.id).Nodup :=
    ((List.perm_insertionSort _ _).map OutboxRow.id).nodup_iff.mpr
      (List.Nodup.sublist (List.Sublist.map _ List.filter_sublist) locks.keyed)
  exact (order.and (List.pairwise_map.mp distinct)).imp (fun both => Nat.lt_of_le_of_ne both.1 both.2)

end Candidates

theorem sortedStep (locks : Locks s) (does : Does db s a t) :
    ∀ round ∈ t.rounds, round.taken.Pairwise (fun a b => a.id < b.id) := by
  intro now mem
  obtain ⟨i,found⟩ := List.mem_iff_getElem?.mp mem
  rcases roundBefore does found with ⟨old,there,same,-,-⟩ | ⟨-,service,n,p,rfl⟩
  · rw [same]
    exact locks.sorted old (List.mem_of_getElem? there)
  · exact (candidatesSorted service locks).sublist (List.take_sublist ..)

theorem dueStep (locks : Locks s) (does : Does db s a t) :
    ∀ round ∈ t.rounds, ∀ row ∈ round.taken, row.nextAttemptAt ≤ t.clock ∧ row.sentAt = none := by
  have clock := (doesGrows does).clock
  intro now mem row taken
  obtain ⟨i,found⟩ := List.mem_iff_getElem?.mp mem
  rcases roundBefore does found with ⟨old,there,same,-,-⟩ | ⟨-,service,n,p,rfl⟩
  · rw [same] at taken
    obtain ⟨due,unsent⟩ := locks.due old (List.mem_of_getElem? there) row taken
    exact ⟨by omega,unsent⟩
  · obtain ⟨-,-,unsent,due,-⟩ := memTaken taken
    exact ⟨by omega,unsent⟩

theorem apartStep (locks : Locks s) (does : Does db s a t) :
    ∀ (i j : Nat) (x y : Round), t.rounds[i]? = some x → t.rounds[j]? = some y → x.holds = true →
      y.holds = true → i ≠ j → ∀ a ∈ x.taken, ∀ b ∈ y.taken, a.id ≠ b.id := by
  -- what a new round takes is locked by no open round
  have fresh (old : Round) {service : String} {n : Nat} (there : old ∈ s.rounds) (holds : old.holds = true) :
      ∀ a ∈ old.taken, ∀ b ∈ (s.candidates db service).take n, a.id ≠ b.id := by
    intro a memA b memB same
    have locked := lockedExact.mpr ⟨old,there,holds,a,memA,same⟩
    rw [(memTaken memB).2.2.2.2] at locked
    contradiction
  intro i j x y hx hy holdsX holdsY differs a memA b memB
  rcases roundBefore does hx with ⟨u,hu,sameX,-,wasX⟩ | ⟨lastX,service,n,p,rfl⟩
  · rw [sameX] at memA
    rcases roundBefore does hy with ⟨v,hv,sameY,-,wasY⟩ | ⟨-,service,n,p,rfl⟩
    · rw [sameY] at memB
      exact locks.apart i j u v hu hv (wasX holdsX) (wasY holdsY) differs a memA b memB
    · exact fresh u (List.mem_of_getElem? hu) (wasX holdsX) a memA b memB
  · rcases roundBefore does hy with ⟨v,hv,sameY,-,wasY⟩ | ⟨lastY,-⟩
    · rw [sameY] at memB
      exact (fresh v (List.mem_of_getElem? hv) (wasY holdsY) b memB a memA).symm
    · exact absurd (lastX.trans lastY.symm) differs

theorem marksStep (locks : Locks s) (sound : Sound db s) (does : Does db s a t) :
    ∀ round ∈ t.rounds, ∀ mark ∈ round.marks, ∃ row ∈ round.taken, row.id = mark.1 := by
  intro now mem mark marked
  cases does with
  | tick | openTx | queues | nothing | commits | rollsBack | cleanup => exact locks.marks now mem mark marked
  | relays =>
    rcases List.mem_append.mp mem with there | new
    · exact locks.marks now there mark marked
    · cases List.mem_singleton.mp new
      exact absurd marked List.not_mem_nil
  | produces found =>
    rcases List.mem_or_eq_of_mem_set mem with there | rfl
    · exact locks.marks now there mark marked
    · exact locks.marks _ (List.mem_of_getElem? found) mark marked
  | updates found here head =>
    rcases List.mem_or_eq_of_mem_set mem with there | rfl
    · exact locks.marks now there mark marked
    · rcases List.mem_append.mp marked with before | new
      · exact locks.marks _ (List.mem_of_getElem? found) mark before
      · cases List.mem_singleton.mp new
        have whole := sound.rounds _ (List.mem_of_getElem? found)
        exact ⟨_,whole.todo _ (by rw [head]; exact List.mem_cons_self),rfl⟩
  | commit found =>
    rcases List.mem_or_eq_of_mem_set mem with there | rfl
    · exact locks.marks now there mark marked
    · exact locks.marks _ (List.mem_of_getElem? found) mark marked
  | stops found =>
    rcases List.mem_or_eq_of_mem_set mem with there | rfl
    · exact locks.marks now there mark marked
    · exact locks.marks _ (List.mem_of_getElem? found) mark marked

theorem unmarked {marks : List (Nat × Fields)} {rows : List OutboxRow} (mem : row ∈ rows)
    (none' : ∀ mark ∈ marks, mark.1 ≠ row.id) : row ∈ applyMarks marks rows := by
  refine List.mem_map.mpr ⟨row,mem,?_⟩
  have missing : marks.lookup row.id = none := by
    simp only [List.lookup_eq_none_iff,bne_iff_ne,ne_eq]
    exact fun mark there same => none' mark there same.symm
  rw [missing]

theorem heldStep (locks : Locks s) (does : Does db s a t) :
    ∀ round ∈ t.rounds, round.holds = true → ∀ row ∈ round.taken, row ∈ t.rows := by
  intro now mem holds row taken
  obtain ⟨i,found⟩ := List.mem_iff_getElem?.mp mem
  have before : row ∈ s.rows ∧ (∀ old, s.rounds[i]? = some old → old.holds = true ∧ row ∈ old.taken) := by
    rcases roundBefore does found with ⟨old,there,same,-,was⟩ | ⟨last,service,n,p,rfl⟩
    · rw [same] at taken
      refine ⟨locks.held old (List.mem_of_getElem? there) (was holds) row taken,fun other here => ?_⟩
      cases Option.some.inj (there.symm.trans here)
      exact ⟨was holds,taken⟩
    · refine ⟨(memTaken taken).1,fun old there => ?_⟩
      have short := (List.getElem?_eq_some_iff.mp there).1
      omega
  obtain ⟨stored,own⟩ := before
  cases does with
  | tick | openTx | queues | nothing | rollsBack | relays | produces | updates | stops => exact stored
  | commits => exact List.mem_append_left _ stored
  | @cleanup cfg ids reply =>
    obtain ⟨holds,taken⟩ := own now found
    have locked : s.locked row.id = true :=
      lockedExact.mpr ⟨now,List.mem_of_getElem? found,holds,row,taken,rfl⟩
    exact List.mem_filter.mpr ⟨stored,by simp only [expired,locked,Bool.not_true,Bool.and_false,Bool.not_false]⟩
  | @commit q reply round there here done =>
    by_cases place : q = i
    · subst place
      have short := (List.getElem?_eq_some_iff.mp there).1
      simp only [State.setRound,List.getElem?_set_self short] at found
      cases Option.some.inj found
      contradiction
    · have old : s.rounds[i]? = some now := by
        simpa only [State.setRound,List.getElem?_set_ne place] using found
      obtain ⟨holds,taken⟩ := own now old
      refine unmarked stored (fun mark marked same => ?_)
      obtain ⟨other,memOther,id⟩ := locks.marks round (List.mem_of_getElem? there) mark marked
      have open' : round.holds = true := by simp only [Round.holds,here]
      exact locks.apart q i round now there old open' holds place other memOther row taken (id.trans same)

theorem ownApart {x : Nat} (sound : Sound db s) (active : s.txs[x]? = some .active) (stored : row ∈ s.rows)
    {own : OutboxRow} (mem : own ∈ (s.inserted.filter (fun entry => entry.1 == x)).map Prod.snd) :
    row.id ≠ own.id := by
  intro same
  obtain ⟨y,first,inserted,committed,-⟩ := sound.rows row stored
  obtain ⟨found,-,-⟩ := ownRows sound mem
  rw [same,found] at inserted
  cases Option.some.inj inserted
  exact TxPoint.noConfusion (Option.some.inj (active.symm.trans committed))

theorem insertedKeyed (sound : Sound db s) (keep : Nat × OutboxRow → Bool) :
    Keyed OutboxRow.id ((s.inserted.filter keep).map Prod.snd) := by
  have all : (s.inserted.map (fun entry => entry.2.id)).Nodup := by
    refine List.pairwise_map.mpr (List.pairwise_iff_getElem.mpr (fun i j hi hj order same => ?_))
    have first : s.inserted[i].2.id = i := (sound.numbered i _ _ (List.getElem?_eq_getElem hi)).1
    have second : s.inserted[j].2.id = j := (sound.numbered j _ _ (List.getElem?_eq_getElem hj)).1
    exact Nat.ne_of_lt order (first.symm.trans (same.trans second))
  rw [Keyed,List.map_map]
  exact List.Nodup.sublist (List.Sublist.map _ List.filter_sublist) all

theorem keyedStep (locks : Locks s) (sound : Sound db s) (does : Does db s a t) :
    Keyed OutboxRow.id t.rows := by
  cases does with
  | tick | openTx | queues | nothing | rollsBack | relays | produces | updates | stops => exact locks.keyed
  | commits active =>
    rw [Keyed,List.map_append]
    refine List.nodup_append.mpr ⟨locks.keyed,insertedKeyed sound _,?_⟩
    intro id old id' new same
    obtain ⟨row,stored,rfl⟩ := List.mem_map.mp old
    obtain ⟨own,mem,rfl⟩ := List.mem_map.mp new
    exact ownApart sound active stored mem same
  | commit =>
    have same : ∀ rows marks, (applyMarks marks rows).map OutboxRow.id = rows.map OutboxRow.id := by
      intro rows marks
      rw [applyMarks,List.map_map]
      refine List.map_congr_left (fun row _ => ?_)
      simp only [Function.comp_apply]
      cases marks.lookup row.id <;> rfl
    simp only [Keyed,State.setRound,same]
    exact locks.keyed
  | cleanup => exact List.Nodup.sublist (List.Sublist.map _ List.filter_sublist) locks.keyed

theorem locksStep (sound : Sound db s) (locks : Locks s) (does : Does db s a t) : Locks t where
  keyed := keyedStep locks sound does
  sorted := sortedStep locks does
  due := dueStep locks does
  held := heldStep locks does
  apart := apartStep locks does
  marks := marksStep locks sound does

structure Consistent (db : Database) (s : State) : Prop where
  sound : Sound db s
  locks : Locks s

theorem consistentStep (inv : Consistent db s) (does : Does db s a t) : Consistent db t :=
  ⟨soundStep inv.sound does,locksStep inv.sound inv.locks does⟩

theorem startConsistent {clock : Int} : Consistent db (State.init clock) :=
  ⟨reachedSound ⟨[],rfl⟩,by constructor <;> simp [State.init,Keyed]⟩

end DevkitCommon.Kafkax.Outbox
