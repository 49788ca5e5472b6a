import DevkitCommon.Kafkax.Rounds

/-! The order of the first publications. A round takes its rows in id order, and that is all:
a row that waits, is locked elsewhere, fails within the batch or commits late is overtaken. -/
namespace DevkitCommon.Kafkax.Outbox
open Machine Table

def Queued.lane (q : Queued) : String × String × String := (q.service,q.topic,q.key)

def Committed (s : State) (row : OutboxRow) : Prop :=
  ∃ x, s.inserted[row.id]? = some (x,row) ∧ s.txs[x]? = some .committed

def State.isPublished (s : State) (id : Nat) : Bool := s.published.any (fun p => p.row == id)

def InOrder (s : State) : Prop :=
  ∀ front p back, s.published = front ++ p::back → (∀ q ∈ front, q.row ≠ p.row) →
    ∀ first own, Committed s first → Committed s own → own.id = p.row → first.id < own.id →
      first.lane = own.lane → ∃ q ∈ front, q.row = first.id

def Round.ahead (round : Round) : List OutboxRow :=
  match round.point with
  | .next => round.todo
  | .mark _ => round.todo.tail
  | _ => []

/- What a round must not meet: with a row it takes, a lower one of its lane, not yet
published, that backs off or is locked by another round; after a row the broker refuses, a
later one of its lane; and a commit of a row below one of its lane that is published or taken. -/
def sure (db : Database) (s : State) : Action → Bool
  | .relay service cfg _ => ((s.candidates db service).take cfg.batch).all (fun row => s.rows.all (fun first =>
      first.lane != row.lane || decide (row.id ≤ first.id) || s.isPublished first.id ||
        decide (first.nextAttemptAt ≤ s.clock) && !s.locked first.id))
  | .produce r .failed _ => (s.rounds[r]?).all (fun round => match round.todo with
      | [] => true
      | first::rest => s.isPublished first.id || rest.all (fun row => row.lane != first.lane))
  | .commitTx x _ => s.inserted.all (fun first => first.1 != x ||
      s.inserted.all (fun later => later.2.lane != first.2.lane || decide (later.2.id ≤ first.2.id) ||
        !(s.isPublished later.2.id || s.rounds.any (fun round => round.ahead.any (fun row => row.id == later.2.id)))))
  | _ => true

def Sure (db : Database) (s : State) (a : Action) : Prop := sure db s a = true
instance (db : Database) (s : State) (a : Action) : Decidable (Sure db s a) := by unfold Sure; infer_instance

structure Covers (s : State) (round : Round) : Prop where
  sorted : round.ahead.Pairwise (fun a b => a.id < b.id)
  below : ∀ row ∈ round.ahead, ∀ first, Committed s first → first.id < row.id → first.lane = row.lane →
    s.isPublished first.id = true ∨ ∃ other ∈ round.ahead, other.id = first.id

structure Orderly (s : State) : Prop where
  covers : ∀ round ∈ s.rounds, Covers s round
  inOrder : InOrder s

variable {db : Database} {s t : State} {a : Action} {row first : OutboxRow} {round now : Round} {r : Nat}

theorem publishedExact {id : Nat} : s.isPublished id = true ↔ ∃ p ∈ s.published, p.row = id := by
  simp only [State.isPublished,List.any_eq_true,beq_iff_eq]

theorem publishedGrows {id : Nat} (grows : Grows s t) (before : s.isPublished id = true) :
    t.isPublished id = true := by
  obtain ⟨p,mem,same⟩ := publishedExact.mp before
  exact publishedExact.mpr ⟨p,grows.published p mem,same⟩

theorem takeLower {l : List OutboxRow} {n : Nat} (sorted : l.Pairwise (fun a b => a.id < b.id))
    (mem : row ∈ l.take n) (lower : first ∈ l) (less : first.id < row.id) : first ∈ l.take n := by
  rw [← List.take_append_drop n l] at lower sorted
  rcases List.mem_append.mp lower with taken | later
  · exact taken
  · have order := (List.pairwise_append.mp sorted).2.2 row mem first later
    omega

theorem committedStored (sound : Sound db s) (committed : Committed s first) :
    s.isPublished first.id = true ∨ ∃ now ∈ s.rows, now.id = first.id ∧ now.toQueued = first.toQueued := by
  obtain ⟨x,found,done⟩ := committed
  rcases sound.kept first.id x first found done with ⟨now,mem,same⟩ | ⟨old,mem,same⟩
  · obtain ⟨y,own,inserted,-,queued⟩ := sound.rows now mem
    rw [same,found] at inserted
    cases Option.some.inj inserted
    exact .inr ⟨now,mem,same,queued.symm⟩
  · obtain ⟨p,there,row,-⟩ := (sound.deleted old mem).2
    exact .inl (publishedExact.mpr ⟨p,there,row.trans same⟩)

theorem committedStep (does : Does db s a t) (committed : Committed t first) :
    Committed s first ∨ ∃ x reply, a = .commitTx x reply ∧ s.inserted[first.id]? = some (x,first) := by
  obtain ⟨x,found,done⟩ := committed
  cases does with
  | tick => exact .inl ⟨x,found,done⟩
  | nothing => exact .inl ⟨x,found,done⟩
  | relays => exact .inl ⟨x,found,done⟩
  | produces => exact .inl ⟨x,found,done⟩
  | updates => exact .inl ⟨x,found,done⟩
  | commit => exact .inl ⟨x,found,done⟩
  | stops => exact .inl ⟨x,found,done⟩
  | cleanup => exact .inl ⟨x,found,done⟩
  | openTx =>
    rcases concatFrom done with before | ⟨-,new⟩
    · exact .inl ⟨x,found,before⟩
    · contradiction
  | queues active =>
    rcases concatFrom found with old | ⟨-,new⟩
    · exact .inl ⟨x,old,done⟩
    · cases new
      exact TxPoint.noConfusion (Option.some.inj (active.symm.trans done))
  | rollsBack active =>
    rcases committedBefore done with rfl | before
    · rw [List.getElem?_set_self (List.getElem?_eq_some_iff.mp active).1] at done
      contradiction
    · exact .inl ⟨x,found,before⟩
  | @commits y reply active =>
    rcases committedBefore done with rfl | before
    · exact .inr ⟨x,reply,rfl,found⟩
    · exact .inl ⟨x,found,before⟩

theorem commitLate {x : Nat} {reply : Reply} {later : Nat × OutboxRow} (sure : Sure db s (.commitTx x reply))
    (found : s.inserted[first.id]? = some (x,first)) (mem : later ∈ s.inserted) (lane : first.lane = later.2.lane)
    (less : first.id < later.2.id) : s.isPublished later.2.id = false ∧
      ∀ round ∈ s.rounds, ∀ row ∈ round.ahead, row.id ≠ later.2.id := by
  simp only [Sure,Outbox.sure,List.all_eq_true,Bool.or_eq_true,bne_iff_ne,ne_eq,decide_eq_true_eq,
    Bool.not_eq_true',Bool.or_eq_false_iff] at sure
  have late := (sure (x,first) (List.mem_of_getElem? found)).resolve_left (fun h => h rfl) later mem
  have free := late.resolve_left (fun h => h.elim (fun h => h lane.symm) (Nat.not_le.mpr less))
  refine ⟨free.1,fun round there row ahead same => ?_⟩
  have quiet := free.2
  simp only [List.any_eq_false,Bool.not_eq_true,beq_eq_false_iff_ne] at quiet
  exact quiet round there row ahead same

theorem aheadTodo (mem : row ∈ round.ahead) : row ∈ round.todo := by
  unfold Round.ahead at mem
  split at mem
  · exact mem
  · exact List.mem_of_mem_tail mem
  · exact absurd mem List.not_mem_nil

theorem todoOrigin (sound : Sound db s) (there : round ∈ s.rounds) (mem : row ∈ round.todo) : Origin s row :=
  (sound.rounds round there).taken row ((sound.rounds round there).todo row mem)

theorem sameLane (origin : Origin s row) (committed : Committed s first) (id : first.id = row.id) :
    first.lane = row.lane := by
  obtain ⟨x,own,inserted,-,queued⟩ := origin
  obtain ⟨y,found,-⟩ := committed
  rw [id,inserted] at found
  cases Option.some.inj found
  exact congrArg Queued.lane queued

theorem aheadCommitted (sound : Sound db s) (sure : Sure db s a) (does : Does db s a t) (there : round ∈ s.rounds)
    (ahead : row ∈ round.ahead) (committed : Committed t first) (less : first.id < row.id)
    (lane : first.lane = row.lane) : Committed s first := by
  rcases committedStep does committed with before | ⟨x,reply,rfl,found⟩
  · exact before
  · obtain ⟨y,own,inserted,-,queued⟩ := todoOrigin sound there (aheadTodo ahead)
    have id := (sound.numbered row.id y own inserted).1
    have same : first.lane = own.lane := lane.trans (congrArg Queued.lane queued).symm
    have late := commitLate sure found (List.mem_of_getElem? inserted) same (by rw [id]; exact less)
    exact absurd id.symm (late.2 round there row ahead)

section Rounds
variable {rest : List OutboxRow}

theorem coversKept (inv : Orderly s) (sound : Sound db s) (sure : Sure db s a) (does : Does db s a t)
    (there : round ∈ s.rounds) (same : now.ahead = round.ahead) : Covers t now where
  sorted := same ▸ (inv.covers round there).sorted
  below := fun row ahead first committed less lane => by
    rw [same] at ahead ⊢
    have before := aheadCommitted sound sure does there ahead committed less lane
    exact ((inv.covers round there).below row ahead first before less lane).imp_left
      (publishedGrows (doesGrows does))

theorem coversNone (none' : now.ahead = []) : Covers t now :=
  ⟨by rw [none']; exact .nil,fun row mem => by rw [none'] at mem; exact absurd mem List.not_mem_nil⟩

theorem coversBegun {service : String} {cfg : OutboxConfig} {reply : Reply} (sound : Sound db s)
    (locks : Locks s) (sure : Sure db s (.relay service cfg reply)) {p : RoundPoint} (fresh : p = .next ∨ p = .rollback)
    (published : t.published = s.published) (committed : ∀ first, Committed t first → Committed s first) :
    Covers t (begun service ((s.candidates db service).take cfg.batch) p) := by
  rcases fresh with rfl | rfl
  · have sorted : (s.candidates db service).Pairwise (fun a b => a.id < b.id) := candidatesSorted service locks
    refine ⟨sorted.sublist (List.take_sublist ..),fun row taken first later less lane => ?_⟩
    simp only [Sure,Outbox.sure,List.all_eq_true,Bool.or_eq_true,bne_iff_ne,ne_eq,decide_eq_true_eq,
      Bool.and_eq_true,Bool.not_eq_true'] at sure
    have seen (id : Nat) : s.isPublished id = t.isPublished id := by simp only [State.isPublished,published]
    rcases committedStored sound (committed first later) with before | ⟨now,stored,id,queued⟩
    · exact .inl (by rwa [seen] at before)
    · have own : now.lane = row.lane := (congrArg Queued.lane queued).trans lane
      rcases sure row taken now stored with ((other | order) | before) | ⟨due,free⟩
      · exact absurd own other
      · omega
      · exact .inl (by rwa [seen,id] at before)
      · cases sent : now.sentAt with
        | some when =>
          obtain ⟨q,mem,row,-⟩ := sound.sent now stored (by simp [sent])
          have before := publishedExact.mpr ⟨q,mem,row.trans id⟩
          exact .inl (by rwa [seen] at before)
        | none =>
          have service := (memTaken taken).2.1
          have same : now.service = row.service := congrArg Prod.fst own
          have candidate := memCandidates.mpr ⟨stored,same ▸ service,sent,due,free⟩
          exact .inr ⟨now,takeLower sorted taken candidate (by omega),id⟩
  · exact coversNone rfl

theorem producedHead {reply : Reply} {err : Bytes} {head : OutboxRow} {p : Publication}
    (sure : Sure db s (.produce r reply err)) (found : s.rounds[r]? = some round) (todo : round.todo = head::rest)
    (own : p.row = head.id)
    (published : t.published = if reply.ran then s.published ++ [p] else s.published) :
    t.isPublished head.id = true ∨ ∀ row ∈ rest, row.lane ≠ head.lane := by
  have last : p ∈ s.published ++ [p] := List.mem_append_right _ (List.mem_singleton_self p)
  cases reply with
  | ok => exact .inl (publishedExact.mpr ⟨p,by rw [published]; exact last,own⟩)
  | lost => exact .inl (publishedExact.mpr ⟨p,by rw [published]; exact last,own⟩)
  | failed =>
    simp only [Sure,Outbox.sure,found,todo,Option.all_some,Bool.or_eq_true,List.all_eq_true,bne_iff_ne,ne_eq] at sure
    refine sure.imp_left (fun before => ?_)
    simpa only [State.isPublished,published,Reply.ran,Bool.false_eq_true,if_false] using before

theorem coversProduced {head : OutboxRow} (inv : Orderly s) (sound : Sound db s) (sure : Sure db s a)
    (does : Does db s a t) (there : round ∈ s.rounds) (here : round.point = .next)
    (todo : round.todo = head::rest) (ahead : now.ahead = rest)
    (reached : t.isPublished head.id = true ∨ ∀ row ∈ rest, row.lane ≠ head.lane) : Covers t now := by
  have before : round.ahead = head::rest := by simp only [Round.ahead,here,todo]
  have covers := inv.covers round there
  have sorted := covers.sorted
  rw [before] at sorted
  refine ⟨ahead ▸ (List.pairwise_cons.mp sorted).2,fun row mem first later less lane => ?_⟩
  rw [ahead] at mem ⊢
  have member : row ∈ round.ahead := by
    rw [before]
    exact List.mem_cons_of_mem _ mem
  have committed := aheadCommitted sound sure does there member later less lane
  rcases covers.below row member first committed less lane with published | ⟨other,place,id⟩
  · exact .inl (publishedGrows (doesGrows does) published)
  · rw [before] at place
    rcases List.mem_cons.mp place with rfl | place
    · rcases reached with published | foreign
      · exact .inl (id ▸ published)
      · have origin := todoOrigin sound there (show other ∈ round.todo by rw [todo]; exact List.mem_cons_self)
        exact absurd (lane.symm.trans (sameLane origin committed id.symm)) (foreign row mem)
    · exact .inr ⟨other,place,id⟩

theorem coversStep (inv : Orderly s) (sound : Sound db s) (locks : Locks s) (sure : Sure db s a)
    (does : Does db s a t) : ∀ round ∈ t.rounds, Covers t round := by
  intro now mem
  have kept (there : now ∈ s.rounds) : Covers t now := coversKept inv sound sure does there rfl
  have whole := does
  cases does with
  | tick | openTx | queues | nothing | commits | rollsBack | cleanup => exact kept mem
  | relays cfg p fresh =>
    rcases List.mem_append.mp mem with there | new
    · exact kept there
    · cases List.mem_singleton.mp new
      exact coversBegun sound locks sure fresh rfl (fun _ committed => committed)
  | produces found here head answered sent =>
    rcases List.mem_or_eq_of_mem_set mem with there | rfl
    · exact kept there
    · refine coversProduced inv sound sure whole (List.mem_of_getElem? found) here head ?_
        (producedHead sure found head rfl sent)
      simp only [Round.ahead,head,List.tail_cons]
  | updates found here head =>
    rcases List.mem_or_eq_of_mem_set mem with there | rfl
    · exact kept there
    · refine coversKept inv sound sure whole (List.mem_of_getElem? found) ?_
      simp only [Round.ahead,here,head,List.tail_cons]
  | commit found =>
    rcases List.mem_or_eq_of_mem_set mem with there | rfl
    · exact kept there
    · exact coversNone rfl
  | stops found why =>
    rcases List.mem_or_eq_of_mem_set mem with there | rfl
    · exact kept there
    · cases why <;> exact coversNone rfl

end Rounds

theorem splitConcat {α : Type} {l front back : List α} {p q : α} (same : l ++ [p] = front ++ q::back) :
    (front = l ∧ q = p) ∨ ∃ rest, l = front ++ q::rest := by
  rcases List.eq_nil_or_concat back with rfl | ⟨rest,last,rfl⟩
  · obtain ⟨front',last⟩ := List.append_inj' same rfl
    exact .inl ⟨front'.symm,(List.singleton_inj.mp last).symm⟩
  · rw [List.concat_eq_append,← List.cons_append,← List.append_assoc] at same
    exact .inr ⟨rest,(List.append_inj' same rfl).1⟩

theorem publishedCommitted {p : Publication} {own : OutboxRow} (sound : Sound db s) (mem : p ∈ s.published)
    (grows : Grows s t) (committed : Committed t own) (id : own.id = p.row) : Committed s own := by
  obtain ⟨row,⟨x,first,inserted,done,-⟩,row',-⟩ := sound.published p mem
  obtain ⟨y,found,-⟩ := committed
  have later := grows.inserted _ _ inserted
  rw [row',← id,found] at later
  cases Option.some.inj later
  rw [row',← id] at inserted
  exact ⟨x,inserted,done⟩

theorem orderKept (inv : Orderly s) (sound : Sound db s) (sure : Sure db s a) (does : Does db s a t)
    {front back : List Publication} {p : Publication} (split : s.published = front ++ p::back)
    (new : ∀ q ∈ front, q.row ≠ p.row) (first own : OutboxRow) (later : Committed t first) (stored : Committed t own)
    (id : own.id = p.row) (less : first.id < own.id) (lane : first.lane = own.lane) :
    ∃ q ∈ front, q.row = first.id := by
  have mem : p ∈ s.published := by
    rw [split]
    exact List.mem_append_right _ List.mem_cons_self
  have before := publishedCommitted sound mem (doesGrows does) stored id
  rcases committedStep does later with committed | ⟨x,reply,rfl,found⟩
  · exact inv.inOrder front p back split new first own committed before id less lane
  · obtain ⟨y,inserted,-⟩ := before
    have late := (commitLate sure found (List.mem_of_getElem? inserted) lane less).1
    rw [publishedExact.mpr ⟨p,mem,id.symm⟩] at late
    contradiction

theorem headNext {head : OutboxRow} {rest : List OutboxRow} (covers : Covers s round)
    (here : round.point = .next) (todo : round.todo = head::rest) (committed : Committed s first)
    (less : first.id < head.id) (lane : first.lane = head.lane) : s.isPublished first.id = true := by
  have ahead : round.ahead = head::rest := by simp only [Round.ahead,here,todo]
  have sorted := covers.sorted
  rw [ahead] at sorted
  rcases covers.below head (by rw [ahead]; exact List.mem_cons_self) first committed less lane with
    published | ⟨other,place,id⟩
  · exact published
  · rw [ahead] at place
    rcases List.mem_cons.mp place with rfl | later
    · omega
    · have order := (List.pairwise_cons.mp sorted).1 other later
      omega

theorem inOrderStep (inv : Orderly s) (sound : Sound db s) (sure : Sure db s a) (does : Does db s a t) :
    InOrder t := by
  intro front p back split new first own later stored id less lane
  have whole := does
  cases does with
  | tick | openTx | queues | nothing | commits | rollsBack | relays | updates | commit | stops | cleanup =>
    exact orderKept inv sound sure whole split new first own later stored id less lane
  -- the head is published now, and what is below it has been
  | @produces r reply err round head rest answer published found here todo answered sent =>
    simp only [State.setRound] at split
    rw [sent] at split
    split at split
    · rcases splitConcat split with ⟨rfl,rfl⟩ | ⟨rest',before⟩
      · have origin := todoOrigin sound (List.mem_of_getElem? found)
          (show head ∈ round.todo by rw [todo]; exact List.mem_cons_self)
        have lane' : first.lane = head.lane := lane.trans (sameLane origin stored id)
        exact publishedExact.mp
          (headNext (inv.covers round (List.mem_of_getElem? found)) here todo later (Nat.lt_of_lt_of_eq less id) lane')
      · exact orderKept inv sound sure whole before new first own later stored id less lane
    · exact orderKept inv sound sure whole split new first own later stored id less lane

theorem orderlyStep (inv : Orderly s) (kept : Consistent db s) (sure : Sure db s a) (does : Does db s a t) :
    Orderly t :=
  ⟨coversStep inv kept.sound kept.locks sure does,inOrderStep inv kept.sound sure does⟩

structure Ordering (db : Database) (s : State) : Prop where
  consistent : Consistent db s
  orderly : Orderly s

theorem orderingStep (inv : Ordering db s) (sure : Sure db s a) (does : Does db s a t) : Ordering db t :=
  ⟨consistentStep inv.consistent does,orderlyStep inv.orderly inv.consistent sure does⟩

theorem publishedInOrder (db : Database) (clock : Int) (as : List Action) (s : State)
    (sure : Along (step db) (Sure db) (State.init clock) as)
    (ok : run (step db) (State.init clock) as = some s) : InOrder s := by
  have start : Ordering db (State.init clock) := by
    refine ⟨startConsistent,⟨fun _ mem => absurd mem List.not_mem_nil,fun front p back split => ?_⟩⟩
    simp only [State.init,List.nil_eq,List.append_eq_nil_iff,List.cons_ne_nil,and_false] at split
  exact (runKeeps (fun inv sure one => orderingStep inv sure (stepDoes one)) start sure ok).orderly.inOrder

def oneLane : List Action :=
  [.openTx,.publishTx 0 "wallet" "e0" "events.wallet" "7" "debited" "{}" "" .ok,
    .publishTx 0 "wallet" "e1" "events.wallet" "7" "debited" "{}" "" .ok,.commitTx 0 .ok]

def oneByOne : List Action :=
  oneLane ++ [.relay "wallet" ⟨1,0⟩ .ok,.produce 0 .lost "timeout".toUTF8,.update 0 .ok,.commit 0 .ok,
    .tick 2000,.relay "wallet" small .ok,.produce 1 .ok "".toUTF8,.update 1 .ok,.produce 1 .ok "".toUTF8]

theorem oneByOneOrder : ∃ s, run (step tenantDb) (State.init 0) oneByOne = some s ∧
    s.published.map Publication.row = [0,0,1] ∧ InOrder s := by
  have facts : (run (step tenantDb) (State.init 0) oneByOne).map (fun s => s.published.map Publication.row) =
      some [0,0,1] := by decide
  obtain ⟨s,ok,rows⟩ := Option.map_eq_some_iff.mp facts
  exact ⟨s,ok,rows,publishedInOrder tenantDb 0 oneByOne s (by decide) ok⟩

def overtakes : List Action :=
  oneLane ++ [.relay "wallet" small .ok,.produce 0 .failed "timeout".toUTF8,.update 0 .ok,.produce 0 .ok "".toUTF8]

def walletRows (s : State) : List (Nat × Nat × Bool) :=
  s.inserted.map (fun entry => (entry.1,entry.2.id,decide (entry.2.lane = ("wallet","events.wallet","7"))))

theorem overtaken : ¬ ∀ db clock as s, run (step db) (State.init clock) as = some s → InOrder s := by
  intro ordered
  have facts : (run (step tenantDb) (State.init 0) overtakes).map
      (fun s => (s.published.map Publication.row,walletRows s,s.txs)) =
      some ([1],[(0,0,true),(0,1,true)],[.committed]) := by decide
  obtain ⟨s,ok,same⟩ := Option.map_eq_some_iff.mp facts
  simp only [Prod.mk.injEq] at same
  obtain ⟨rows,inserted,txs⟩ := same
  have stored {i id : Nat} (here : (walletRows s)[i]? = some (0,id,true)) (place : i = id) :
      ∃ row, Committed s row ∧ row.id = id ∧ row.lane = ("wallet","events.wallet","7") := by
    simp only [walletRows,List.getElem?_map] at here
    obtain ⟨⟨x,row⟩,found,shape⟩ := Option.map_eq_some_iff.mp here
    simp only [Prod.mk.injEq,decide_eq_true_eq] at shape
    obtain ⟨rfl,rfl,lane⟩ := shape
    exact ⟨row,⟨0,place ▸ found,by rw [txs]; rfl⟩,rfl,lane⟩
  obtain ⟨first,committed,id,lane⟩ := stored (show (walletRows s)[0]? = some (0,0,true) by rw [inserted]; rfl) rfl
  obtain ⟨second,committed',id',lane'⟩ := stored (show (walletRows s)[1]? = some (0,1,true) by rw [inserted]; rfl) rfl
  obtain ⟨p,published,row⟩ := List.map_eq_singleton_iff.mp rows
  obtain ⟨q,mem,-⟩ := ordered tenantDb 0 overtakes s ok [] p [] published (fun _ none' => absurd none' List.not_mem_nil)
    first second committed committed' (id'.trans row.symm) (by omega) (lane.trans lane'.symm)
  exact absurd mem List.not_mem_nil

end DevkitCommon.Kafkax.Outbox
