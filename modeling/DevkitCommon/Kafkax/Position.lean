import DevkitCommon.Kafkax.DeadLetter
import DevkitCommon.Lib.Pairs

/-! The position of a service's tool. A replay may pass a letter of another service and a
letter whose process call ends as a duplicate; whose it is stands in a header, and the
dedupe key says only that some call has begun. -/
namespace DevkitCommon.Kafkax.DLQ
open Machine Pairs Redis

/- A handler run of the service for the letter's event returned nil. An empty id is no
event id: there the values have to be the same. -/
def HandledBy (service : String) (l : Letter) (call : Call) : Prop :=
  call.point = .ended .handled ∧ call.service = service ∧ call.original.record.id = l.id ∧
    (l.id = some "" → call.original.value = l.value)

def Done (s : State) (service : String) (l : Letter) : Prop :=
  (∃ call ∈ s.calls, HandledBy service l call) ∨ (service,l) ∈ s.dropped

def Guarded (s : State) : Prop :=
  ∀ l ∈ s.letters, l.offset < s.position l.parker l.partition → Done s l.parker l

def State.settled (s : State) (call : Call) (j : Nat) : Bool :=
  (s.calls[j]?).any (fun other => other.service == call.service &&
    other.original.record.id == call.original.record.id && other.point == .ended .handled)

def sure (s : State) : Action → Bool
  | .seen i .ok => (s.calls[i]?).all (fun call => !call.tool || match call.point with
      | .seen id => (get s.dedupe s.clock
          (dedupeKey call.service call.original.record.place.topic id)).all (s.settled call)
      | _ => true)
  | .park i _ _ reply => !reply.ran || (s.calls[i]?).all (fun call =>
      consumerOf call.original.headers == "" || consumerOf call.original.headers == call.service)
  | .command service (.drop (some offset)) reads =>
    (s.pending service reads).all (fun l => l.parker != service || l.offset == offset)
  | _ => true

def Sure (s : State) (a : Action) : Prop := sure s a = true
instance (s : State) (a : Action) : Decidable (Sure s a) := by unfold Sure; infer_instance

def Point.plain : Point → Bool
  | .seen _ | .ended .duplicate => false
  | _ => true

section Moves
variable (source : String) (cfg : String → Config) (s : State)

inductive Turns (i : Nat) (call : Call) : Action → Point → Store String Nat → Prop where
  | sets {reply id claimed e} (here : call.point = .seen id) (mine : e.value = i)
      (knows : reply ≠ .lost → claimed = true) :
      Turns i call (.seen i reply) (.attempt claimed 1) (Function.update s.dedupe
        (dedupeKey call.service call.original.record.place.topic id) (some e))
  | passes {reply id} (here : call.point = .seen id) :
      Turns i call (.seen i reply) (.attempt false 1) s.dedupe
  | handled {claimed n ctxDone} (here : call.point = .attempt claimed n) :
      Turns i call (.attempt i true ctxDone) (.ended .handled) s.dedupe
  | fails {claimed n ctxDone p} (here : call.point = .attempt claimed n)
      (claims : claimed = true → p.working = true) : Turns i call (.attempt i false ctxDone) p s.dedupe
  | forgotten {reply id} (here : call.point = .forget) (event : call.original.record.id = some id) :
      Turns i call (.forget i reply) .judge (del s.dedupe
        (dedupeKey call.service call.original.record.place.topic id))
  | kept {reply} (here : call.point = .forget) (undone : reply.ran = false) :
      Turns i call (.forget i reply) .judge s.dedupe
  | judges {ctxDone p} (here : call.point = .judge) : Turns i call (.judge i ctxDone) p s.dedupe
  | unparked {partition cause reply} (here : call.point = .park) :
      Turns i call (.park i partition cause reply) (.ended .lost) s.dedupe
  | dies : Turns i call (.crash i) .dead s.dedupe

inductive Does : Action → State → Prop where
  | tick (d : Nat) : Does (.tick d) {s with clock := s.clock + d}
  | consume (service : String) (o : Original) : Does (.consume service o) (begin' cfg s service false o)
  | duplicate {i id j} {call : Call} (found : s.calls[i]? = some call) (here : call.point = .seen id)
      (taken : get s.dedupe s.clock (dedupeKey call.service call.original.record.place.topic id) = some j) :
      Does (.seen i .ok) (s.setCall i {call with point := .ended .duplicate})
  | moves {a i p store} {call : Call} (found : s.calls[i]? = some call) (running : call.point.running = true)
      (plain : Point.plain p = true) (turns : Turns s i call a p store) :
      Does a ({s with dedupe := store}.setCall i {call with point := p})
  | parks {i partition cause reply} {call : Call} (found : s.calls[i]? = some call) (here : call.point = .park)
      (ran : reply.ran = true) : Does (.park i partition cause reply)
        ({s with letters := s.letters ++ [call.letter source partition (s.fresh partition) cause]}.setCall i
          {call with point := .ended .parked})
  | command (service : String) (kind : Kind) (reads : List Nat) : Does (.command service kind reads)
      {s with tools := s.tools ++ [start service kind (s.pending service reads)]}
  | begins {k tool l rest} (found : s.tools[k]? = some tool) (todo : tool.todo = l::rest)
      (mine : parkedHere tool.service l = true) :
      Does (.next k) ((begin' cfg s tool.service true (rebuilt source l)).setTool k
        {tool with call := some s.calls.length})
  | skips {k tool l rest} (found : s.tools[k]? = some tool) (todo : tool.todo = l::rest)
      (foreign : parkedHere tool.service l = false) :
      Does (.next k) (s.setTool k {tool with
        call := none, todo := rest, done := (l.partition,l.offset + 1)::tool.done})
  | results {k i l rest how} {tool : Tool} {call : Call} (found : s.tools[k]? = some tool) (calls : tool.call = some i)
      (answer : s.calls[i]? = some call) (todo : tool.todo = l::rest) (ended : call.point = .ended how) :
      Does (.result k) (s.setTool k (after tool l rest (how == .handled || how == .duplicate)))
  | commits {k tool reply} (found : s.tools[k]? = some tool) (todo : tool.todo = []) :
      Does (.commit k reply) {s.setTool k {tool with ended := true} with
        position := fun service partition => if service = tool.service then
            (tool.done.lookup partition).getD (s.position service partition) else s.position service partition
        dropped := s.dropped ++ (tool.recs.filter tool.kind.drops).map (fun l => (tool.service,l))}
  | refused {k tool reply} (found : s.tools[k]? = some tool) :
      Does (.commit k reply) (s.setTool k {tool with ended := true})
  | crashes {k tool} (found : s.tools[k]? = some tool) :
      Does (.crashTool k) (s.setTool k {tool with todo := [], call := none, ended := true})

end Moves

variable {source : String} {cfg : String → Config} {s t : State} {a : Action} {service : String} {l m : Letter}
  {tool : Tool} {call : Call}

theorem firstPlain {env : Env} {r : Record} :
    Point.plain (first env r) = true ∨ ∃ id, first env r = .seen id ∧ r.id = some id ∧ id ≠ "" := by
  unfold first
  split
  · exact .inl rfl
  · rename_i id here
    split
    · rename_i both
      exact .inr ⟨id,rfl,here,both.2⟩
    · exact .inl rfl

theorem failurePlain {env : Env} {claimed ctxDone : Bool} {n : Nat} :
    Point.plain (afterFailure env claimed ctxDone n) = true := by
  unfold afterFailure
  split
  · rfl
  · split <;> rfl

theorem failureClaims {env : Env} {claimed ctxDone : Bool} {n : Nat} (claims : claimed = true) :
    (afterFailure env claimed ctxDone n).working = true := by
  unfold afterFailure
  split
  · exact claims
  · rfl

theorem stepDoes (one : step source cfg s a = some t) : Does source cfg s a t := by
  cases a <;> simp only [step,bind,Option.bind_eq_some_iff,Option.some.injEq] at one
  case tick d => subst one; exact .tick d
  case consume service o =>
    split at one <;> try contradiction
    cases Option.some.inj one
    exact .consume service o
  case seen i reply =>
    obtain ⟨call,found,last⟩ := one
    split at last <;> try contradiction
    rename_i id here
    cases Option.some.inj last
    have running : call.point.running = true := by rw [here]; rfl
    cases taken : get s.dedupe s.clock (dedupeKey call.service call.original.record.place.topic id) with
    | some j =>
      simp only [setNXRefused (.inr (Option.isSome_of_eq_some taken)),ite_self,Option.isSome_some,if_true]
      split
      · rename_i both
        rw [both.1]
        exact .duplicate found here taken
      · exact .moves found running rfl (.passes here)
    | none =>
      cases refuses : refused (cfg call.service).ttl with
      | true =>
        simp only [setNXRefused (.inl refuses),ite_self,Bool.true_eq_false,and_false,if_false]
        exact .moves found running rfl (.passes here)
      | false =>
        simp only [setNXMade refuses taken,Option.isSome_none,and_true,Bool.false_eq_true,if_false]
        cases reply with
        | ok => exact .moves found running rfl (.sets here rfl (fun _ => rfl))
        | lost => exact .moves found running rfl (.sets here rfl (fun other => absurd rfl other))
        | failed => exact .moves found running rfl (.passes here)
  case attempt i nil ctxDone =>
    obtain ⟨call,found,last⟩ := one
    split at last <;> try contradiction
    rename_i claimed n here
    cases Option.some.inj last
    have running : call.point.running = true := by rw [here]; rfl
    cases nil with
    | true => exact .moves found running rfl (.handled here)
    | false => exact .moves found running failurePlain (.fails here failureClaims)
  case forget i reply =>
    obtain ⟨call,found,id,event,last⟩ := one
    split at last <;> try contradiction
    rename_i here
    cases Option.some.inj last
    have running : call.point.running = true := by rw [here]; rfl
    cases ran : reply.ran with
    | true => exact .moves found running rfl (.forgotten here event)
    | false => exact .moves found running rfl (.kept here ran)
  case judge i ctxDone =>
    obtain ⟨call,found,last⟩ := one
    split at last <;> try contradiction
    rename_i here
    cases Option.some.inj last
    refine .moves found (by rw [here]; rfl) ?_ (.judges here)
    split
    · rfl
    · split <;> rfl
  case park i partition cause reply =>
    obtain ⟨call,found,last⟩ := one
    split at last <;> try contradiction
    rename_i here
    cases Option.some.inj last
    cases ran : reply.ran with
    | true =>
      simp only [if_true]
      exact .parks found here ran
    | false => exact .moves found (by rw [here]; rfl) rfl (.unparked here)
  case crash i =>
    obtain ⟨call,found,last⟩ := one
    split at last <;> try contradiction
    rename_i running
    cases Option.some.inj last
    exact .moves found running rfl .dies
  case command service kind reads => subst one; exact .command service kind reads
  case next k =>
    obtain ⟨tool,found,last⟩ := one
    split at last <;> try contradiction
    rename_i l rest todo _
    split at last <;> cases Option.some.inj last
    · exact .begins found todo (by assumption)
    · rename_i foreign
      exact .skips found todo (Bool.not_eq_true _ ▸ foreign)
  case result k =>
    obtain ⟨tool,found,i,calls,call,answer,last⟩ := one
    split at last <;> try contradiction
    rename_i l rest how todo ended
    cases Option.some.inj last
    exact .results found calls answer todo ended
  case commit k reply =>
    obtain ⟨tool,found,last⟩ := one
    split at last <;> try contradiction
    rename_i both
    split at last <;> cases Option.some.inj last
    · exact .commits found both.1
    · exact .refused found
  case crashTool k =>
    obtain ⟨tool,found,rfl⟩ := one
    exact .crashes found

structure Grows (s t : State) : Prop where
  letters : ∀ l ∈ s.letters, l ∈ t.letters
  behind : ∀ l ∈ t.letters, l ∈ s.letters ∨ s.fresh l.partition ≤ l.offset
  calls : ∀ (i : Nat) (call : Call), s.calls[i]? = some call → ∃ now, t.calls[i]? = some now ∧
    now.service = call.service ∧ now.tool = call.tool ∧ now.original = call.original ∧
    (call.point = .ended .handled → now.point = .ended .handled)
  dropped : ∀ pair ∈ s.dropped, pair ∈ t.dropped

theorem growsSame (letters : t.letters = s.letters) (calls : t.calls = s.calls)
    (dropped : ∀ pair ∈ s.dropped, pair ∈ t.dropped) : Grows s t where
  letters := fun _ mem => by rwa [letters]
  behind := fun _ mem => .inl (by rwa [letters] at mem)
  calls := fun i call found => ⟨call,by rwa [calls],rfl,rfl,rfl,fun done => done⟩
  dropped := dropped

theorem growsBegun {k : Call} (letters : t.letters = s.letters) (calls : t.calls = s.calls ++ [k])
    (dropped : t.dropped = s.dropped) : Grows s t where
  letters := fun _ mem => by rwa [letters]
  behind := fun _ mem => .inl (by rwa [letters] at mem)
  calls := fun i call found => by
    have short := (List.getElem?_eq_some_iff.mp found).1
    exact ⟨call,by rwa [calls,List.getElem?_append_left short],rfl,rfl,rfl,fun done => done⟩
  dropped := fun _ mem => by rwa [dropped]

theorem growsMoved {i : Nat} {p : Point} (found : s.calls[i]? = some call) (running : call.point.running = true)
    (letters : ∀ l ∈ s.letters, l ∈ t.letters) (behind : ∀ l ∈ t.letters, l ∈ s.letters ∨ s.fresh l.partition ≤ l.offset)
    (calls : t.calls = s.calls.set i {call with point := p}) (dropped : t.dropped = s.dropped) : Grows s t where
  letters := letters
  behind := behind
  calls := fun j before there => by
    by_cases same : i = j
    · subst same
      cases Option.some.inj (found.symm.trans there)
      have short := (List.getElem?_eq_some_iff.mp found).1
      refine ⟨{call with point := p},by rw [calls,List.getElem?_set_self short],rfl,rfl,rfl,fun done => ?_⟩
      rw [done] at running
      contradiction
    · exact ⟨before,by rwa [calls,List.getElem?_set_ne same],rfl,rfl,rfl,fun done => done⟩
  dropped := fun _ mem => by rwa [dropped]

theorem doesGrows (does : Does source cfg s a t) : Grows s t := by
  have kept (pair : String × Letter) (mem : pair ∈ s.dropped) : pair ∈ s.dropped := mem
  cases does with
  | tick | command | skips | results | refused | crashes => exact growsSame rfl rfl kept
  | consume | begins => exact growsBegun rfl rfl rfl
  | duplicate found here taken =>
    exact growsMoved found (by rw [here]; rfl) (fun _ mem => mem) (fun _ mem => .inl mem) rfl rfl
  | moves found running plain =>
    exact growsMoved found running (fun _ mem => mem) (fun _ mem => .inl mem) rfl rfl
  | @parks i partition cause reply call found here ran =>
    refine growsMoved found (by rw [here]; rfl) (fun _ mem => List.mem_append_left _ mem) (fun l mem => ?_) rfl rfl
    rcases List.mem_append.mp mem with old | new
    · exact .inl old
    · cases List.mem_singleton.mp new
      exact .inr (Nat.le_refl _)
  | commits => exact growsSame rfl rfl (fun _ mem => List.mem_append_left _ mem)

theorem doneGrows (grows : Grows s t) (done : Done s service l) : Done t service l := by
  rcases done with ⟨call,mem,handled,whose,id,value⟩ | dropped
  · obtain ⟨i,found⟩ := List.mem_iff_getElem?.mp mem
    obtain ⟨now,there,service,-,original,stays⟩ := grows.calls i call found
    exact .inl ⟨now,List.mem_of_getElem? there,stays handled,service.trans whose,by rw [original,id],
      fun empty => by rw [original,value empty]⟩
  · exact .inr (grows.dropped _ dropped)

structure Parked (s : State) : Prop where
  below : ∀ l ∈ s.letters, l.offset < s.fresh l.partition
  unique : ∀ l ∈ s.letters, ∀ m ∈ s.letters, l.partition = m.partition → l.offset = m.offset → l = m
  own : ∀ l ∈ s.letters, parkedHere l.parker l = true

theorem consumerParked (service cause : String) (headers : Headers) :
    consumerOf (parkHeaders service source cause headers) =
      ((headers.find? (fun h => h.1 == "consumer")).map Prod.snd).getD service := by
  unfold consumerOf parkHeaders
  rw [List.find?_append]
  cases headers.find? (fun h => h.1 == "consumer") with
  | none => simp
  | some h => rfl

theorem parkedOwn {partition offset : Nat} {cause : String}
    (own : consumerOf call.original.headers = "" ∨ consumerOf call.original.headers = call.service) :
    parkedHere call.service (call.letter source partition offset cause) = true := by
  simp only [parkedHere,Call.letter,consumerParked,Bool.or_eq_true,beq_iff_eq]
  unfold consumerOf at own
  cases found : call.original.headers.find? (fun h => h.1 == "consumer") with
  | none => exact .inr rfl
  | some h =>
    rw [found] at own
    exact own

theorem freshConcat (l : Letter) (p : Nat) {letters : List Letter} :
    (letters ++ [l]).countP (fun m => m.partition == p) =
      letters.countP (fun m => m.partition == p) + if l.partition = p then 1 else 0 := by
  simp only [List.countP_append,List.countP_singleton,beq_iff_eq]

theorem doesLetters (does : Does source cfg s a t) : t.letters = s.letters ∨
    ∃ i partition cause reply call, a = .park i partition cause reply ∧ s.calls[i]? = some call ∧ reply.ran = true ∧
      t.letters = s.letters ++ [call.letter source partition (s.fresh partition) cause] := by
  cases does with
  | parks found here ran => exact .inr ⟨_,_,_,_,_,rfl,found,ran,rfl⟩
  | _ => exact .inl rfl

theorem parkedStep (inv : Parked s) (sure : Sure s a) (does : Does source cfg s a t) : Parked t := by
  rcases doesLetters does with same | ⟨i,partition,cause,reply,call,rfl,found,ran,letters⟩
  · have fresh (p : Nat) : t.fresh p = s.fresh p := by simp only [State.fresh,same]
    exact ⟨fun l mem => by rw [fresh]; exact inv.below l (same ▸ mem),
      fun l mem m mem' => inv.unique l (same ▸ mem) m (same ▸ mem'),fun l mem => inv.own l (same ▸ mem)⟩
  · have fresh (p : Nat) : t.fresh p = s.fresh p + if partition = p then 1 else 0 := by
      simp only [State.fresh,letters,freshConcat]
      rfl
    have split {l : Letter} (mem : l ∈ t.letters) :
        l ∈ s.letters ∨ l = call.letter source partition (s.fresh partition) cause := by
      rw [letters] at mem
      exact (List.mem_append.mp mem).imp_right List.mem_singleton.mp
    -- an old letter and the new one do not share a place
    have apart {l : Letter} (mem : l ∈ s.letters) (same : l.partition = partition) : l.offset ≠ s.fresh partition := by
      have below := inv.below l mem
      rw [same] at below
      omega
    refine ⟨fun l mem => ?_,fun l mem m mem' place offset => ?_,fun l mem => ?_⟩
    · rw [fresh]
      rcases split mem with old | rfl
      · have below := inv.below l old
        omega
      · simp only [Call.letter,if_true]
        omega
    · rcases split mem with old | rfl <;> rcases split mem' with old' | rfl
      · exact inv.unique l old m old' place offset
      · exact absurd offset (apart old place)
      · exact absurd offset.symm (apart old' place.symm)
      · rfl
    · rcases split mem with old | rfl
      · exact inv.own l old
      · simp only [Sure,DLQ.sure,ran,Bool.not_true,Bool.false_or,found,Option.all_some,Bool.or_eq_true,beq_iff_eq] at sure
        exact parkedOwn sure

structure Backed (s : State) (call : Call) : Prop where
  checked : ∀ id, call.point = .seen id → call.original.record.id = some id ∧ id ≠ ""
  duplicate : call.tool = true → call.point = .ended .duplicate → call.original.record.id ≠ some "" ∧
    ∃ other ∈ s.calls, other.point = .ended .handled ∧ other.service = call.service ∧
      other.original.record.id = call.original.record.id

def AllBacked (s : State) : Prop := ∀ (i : Nat) (call : Call), s.calls[i]? = some call → Backed s call

theorem backedPlain (plain : Point.plain call.point = true) : Backed s call := by
  constructor
  · intro id here
    rw [here] at plain
    contradiction
  · intro _ here
    rw [here] at plain
    contradiction

theorem backedGrows (grows : Grows s t) (backed : Backed s call) : Backed t call where
  checked := backed.checked
  duplicate := fun tool here => by
    obtain ⟨id,other,mem,handled,whose,event⟩ := backed.duplicate tool here
    obtain ⟨i,found⟩ := List.mem_iff_getElem?.mp mem
    obtain ⟨now,there,service,-,original,stays⟩ := grows.calls i other found
    exact ⟨id,now,List.mem_of_getElem? there,stays handled,service.trans whose,by rw [original,event]⟩

theorem backedBegun {tool : Bool} {o : Original} : Backed s ⟨service,tool,o,first (envOf cfg service) o.record⟩ := by
  rcases @firstPlain (envOf cfg service) o.record with plain | ⟨id,here,event,full⟩
  · exact backedPlain plain
  · refine ⟨fun id' same => ?_,fun _ same => ?_⟩
    · cases here.symm.trans same
      exact ⟨event,full⟩
    · rw [here] at same
      contradiction

theorem settledBacked {i j : Nat} {id : String} (backed : Backed s call) (sure : Sure s (.seen i .ok))
    (found : s.calls[i]? = some call) (here : call.point = .seen id)
    (taken : get s.dedupe s.clock (dedupeKey call.service call.original.record.place.topic id) = some j) :
    Backed s {call with point := .ended .duplicate} := by
  refine ⟨fun _ same => Point.noConfusion same,fun tool _ => ?_⟩
  change call.tool = true at tool
  obtain ⟨event,full⟩ := backed.checked id here
  simp only [Sure,DLQ.sure,found,here,taken,tool,Option.all_some,Bool.not_true,Bool.false_or] at sure
  obtain ⟨other,there,same⟩ := (Option.any_eq_true _ _).mp sure
  simp only [Bool.and_eq_true,beq_iff_eq] at same
  refine ⟨fun empty => full ?_,other,List.mem_of_getElem? there,same.2,same.1.1,same.1.2⟩
  exact Option.some.inj (event.symm.trans empty)

theorem backedStep (inv : AllBacked s) (sure : Sure s a) (does : Does source cfg s a t) : AllBacked t := by
  intro i now found
  have grows := doesGrows does
  have kept {call : Call} (before : s.calls[i]? = some call) : Backed t call := backedGrows grows (inv i call before)
  have moved {j : Nat} {call : Call} {p : Point} (set : t.calls = s.calls.set j {call with point := p})
      (fine : Backed t {call with point := p}) : Backed t now := by
    rw [set] at found
    by_cases same : j = i
    · subst same
      obtain ⟨short,-⟩ := List.getElem?_eq_some_iff.mp found
      rw [List.getElem?_set_self (by rwa [List.length_set] at short)] at found
      cases Option.some.inj found
      exact fine
    · rw [List.getElem?_set_ne same] at found
      exact kept found
  have begun {service : String} {tool : Bool} {o : Original} (calls : t.calls = s.calls ++
      [⟨service,tool,o,first (envOf cfg service) o.record⟩]) : Backed t now := by
    rw [calls] at found
    rcases concatFrom found with before | ⟨-,rfl⟩
    · exact kept before
    · exact backedBegun
  cases does with
  | tick | command | skips | results | commits | refused | crashes => exact kept found
  | consume | begins => exact begun rfl
  | duplicate there here taken =>
    exact moved rfl (backedGrows grows (settledBacked (inv _ _ there) sure there here taken))
  | moves there running plain => exact moved rfl (backedPlain plain)
  | parks there here ran => exact moved rfl (backedPlain rfl)

def Clear (s : State) (service : String) (partition offset : Nat) : Prop :=
  ∀ l ∈ s.letters, l.parker = service → l.partition = partition → l.offset < offset → Done s service l

def Covers (s : State) (service : String) (letters : List Letter) : Prop :=
  ∀ l ∈ letters, ∀ m ∈ s.letters, m.parker = service → m.partition = l.partition → m.offset ≤ l.offset →
    Done s service m ∨ m ∈ letters

structure Sound (source : String) (s : State) (tool : Tool) : Prop where
  read : ∀ l ∈ tool.recs, l ∈ s.letters
  covers : Covers s tool.service tool.recs
  drops : ∀ only, tool.kind = .drop only → tool.todo = [] ∧
    ∀ l ∈ tool.recs, l.parker = tool.service → tool.kind.drops l = true
  left : ∀ l ∈ tool.todo, l ∈ tool.recs
  sorted : tool.todo.Pairwise inOrder
  remains : tool.kind = .replay → Covers s tool.service tool.todo
  mine : ∀ partition offset, tool.kind = .replayOne partition offset → ∀ l ∈ tool.todo, parkedHere tool.service l = true
  marked : ∀ mark ∈ tool.done, ∃ l ∈ tool.recs, mark = (l.partition,l.offset + 1)
  passed : (∀ only, tool.kind ≠ .drop only) → ∀ mark ∈ tool.done, Clear s tool.service mark.1 mark.2
  calling : ∀ i, tool.call = some i → ∃ l rest call, tool.todo = l::rest ∧ s.calls[i]? = some call ∧
    call.service = tool.service ∧ call.tool = true ∧ call.original = rebuilt source l

theorem clearGrows {partition offset : Nat} (grows : Grows s t) (below : offset ≤ s.fresh partition)
    (clear : Clear s service partition offset) : Clear t service partition offset := by
  intro l mem parker place less
  rcases grows.behind l mem with old | new
  · exact doneGrows grows (clear l old parker place less)
  · rw [place] at new
    omega

theorem coversGrows {letters : List Letter} (parked : Parked s) (grows : Grows s t)
    (read : ∀ l ∈ letters, l ∈ s.letters) (covers : Covers s service letters) : Covers t service letters := by
  intro l there m mem parker place less
  rcases grows.behind m mem with old | new
  · exact (covers l there m old parker place less).imp_left (doneGrows grows)
  · have below := parked.below l (read l there)
    rw [place] at new
    omega

theorem markBelow {mark : Nat × Nat} (parked : Parked s) (sound : Sound source s tool) (mem : mark ∈ tool.done) :
    mark.2 ≤ s.fresh mark.1 := by
  obtain ⟨l,there,rfl⟩ := sound.marked mark mem
  exact parked.below l (sound.read l there)

theorem soundGrows (parked : Parked s) (grows : Grows s t) (sound : Sound source s tool) : Sound source t tool where
  read := fun l mem => grows.letters l (sound.read l mem)
  covers := coversGrows parked grows sound.read sound.covers
  drops := sound.drops
  left := sound.left
  sorted := sound.sorted
  remains := fun replay => coversGrows parked grows (fun l mem => sound.read l (sound.left l mem)) (sound.remains replay)
  mine := sound.mine
  marked := sound.marked
  passed := fun replays mark mem => clearGrows grows (markBelow parked sound mem) (sound.passed replays mark mem)
  calling := fun i calls => by
    obtain ⟨l,rest,call,todo,found,whose,isTool,original⟩ := sound.calling i calls
    obtain ⟨now,there,service,isTool',original',-⟩ := grows.calls i call found
    exact ⟨l,rest,now,todo,there,service.trans whose,isTool'.trans isTool,original'.trans original⟩

theorem pendingCovers {reads : List Nat} (clear : ∀ p, Clear s service p (s.position service p)) :
    Covers s service (s.pending service reads) := by
  intro l mem m there parker place less
  simp only [State.pending,List.mem_filter,Bool.and_eq_true,decide_eq_true_eq] at mem ⊢
  by_cases before : m.offset < s.position service m.partition
  · exact .inl (clear m.partition m there parker rfl before)
  · refine .inr ⟨there,by omega,?_⟩
    rw [place]
    omega

theorem memSorted {recs : List Letter} : l ∈ sorted recs ↔ l ∈ recs := List.mem_insertionSort inOrder

instance : Std.Total inOrder := ⟨fun a b => by unfold inOrder; omega⟩
instance : IsTrans Letter inOrder := ⟨fun a b c => by unfold inOrder; omega⟩

theorem sortedPairwise (recs : List Letter) : (sorted recs).Pairwise inOrder := List.pairwise_insertionSort inOrder recs

theorem coversPerm {recs other : List Letter} (same : ∀ l, l ∈ other ↔ l ∈ recs) (covers : Covers s service recs) :
    Covers s service other := fun l mem m there parker place less =>
  (covers l ((same l).mp mem) m there parker place less).imp_right (same m).mpr

theorem markedSorted {recs : List Letter} {mark : Nat × Nat} (mem : mark ∈ marks recs) :
    ∃ l ∈ recs, mark = (l.partition,l.offset + 1) := by
  obtain ⟨l,there,same⟩ := List.mem_map.mp mem
  exact ⟨l,memSorted.mp (List.mem_reverse.mp there),same.symm⟩

section Tools
variable {recs rest : List Letter}

theorem startOne {partition offset : Nat} {ended : Bool} (read : ∀ l ∈ recs, l ∈ s.letters)
    (covers : Covers s service recs) (todo : List Letter) (left : ∀ l ∈ todo, l ∈ recs) (short : todo.length ≤ 1)
    (mine : ∀ l ∈ todo, parkedHere service l = true) :
    Sound source s ⟨service,.replayOne partition offset,recs,todo,[],none,ended⟩ where
  read := read
  covers := covers
  drops := fun _ kind => Kind.noConfusion kind
  left := left
  sorted := by
    match todo,short with
    | [],_ => exact .nil
    | [l],_ => exact List.pairwise_singleton ..
  remains := fun kind => Kind.noConfusion kind
  mine := fun _ _ _ => mine
  marked := fun _ mem => absurd mem List.not_mem_nil
  passed := fun _ _ mem => absurd mem List.not_mem_nil
  calling := fun _ none' => by cases none'

theorem startSound {kind : Kind} (read : ∀ l ∈ recs, l ∈ s.letters) (covers : Covers s service recs)
    (named : ∀ only, kind = .drop only → ∀ l ∈ recs, l.parker = service → kind.drops l = true) :
    Sound source s (start service kind recs) := by
  cases kind with
  | drop only =>
    exact ⟨read,covers,fun only' kind => ⟨rfl,named only' kind⟩,fun _ mem => absurd mem List.not_mem_nil,.nil,
      fun kind => Kind.noConfusion kind,fun _ _ kind => Kind.noConfusion kind,fun mark mem => markedSorted mem,
      fun replays => absurd rfl (replays only),fun _ none' => by cases none'⟩
  | replay =>
    exact ⟨read,covers,fun _ kind => Kind.noConfusion kind,fun l mem => memSorted.mp mem,sortedPairwise recs,
      fun _ => coversPerm (fun l => memSorted) covers,fun _ _ kind => Kind.noConfusion kind,
      fun _ mem => absurd mem List.not_mem_nil,fun _ _ mem => absurd mem List.not_mem_nil,
      fun _ none' => by cases none'⟩
  | replayOne partition offset =>
    have empty : ∀ l ∈ ([] : List Letter), l ∈ recs := fun _ mem => absurd mem List.not_mem_nil
    have foreign := @startOne source s service recs partition offset true read covers
      [] empty (Nat.zero_le 1) (fun _ mem => absurd mem List.not_mem_nil)
    unfold start
    dsimp only
    split
    · exact foreign
    · rename_i l found
      split
      · rename_i mine
        exact startOne read covers [l] (fun m mem => by cases List.mem_singleton.mp mem; exact List.mem_of_find?_eq_some found)
          (Nat.le_refl 1) (fun m mem => by cases List.mem_singleton.mp mem; exact mine)
      · exact foreign

theorem headClear (parked : Parked s) (sound : Sound source s tool) (replay : tool.kind = .replay)
    (todo : tool.todo = l::rest) (done : l.parker = tool.service → Done s tool.service l) :
    Clear s tool.service l.partition (l.offset + 1) := by
  intro m there parker place less
  have head : l ∈ tool.todo := by
    rw [todo]
    exact List.mem_cons_self
  have ofHead (same : m = l) : Done s tool.service m := by
    subst same
    exact done parker
  rcases sound.remains replay l head m there parker place (by omega) with before | left
  · exact before
  · rw [todo] at left
    rcases List.mem_cons.mp left with same | later
    · exact ofHead same
    · -- the list is in order, so it is the letter of the same place
      have sorted := sound.sorted
      rw [todo] at sorted
      have order := (List.pairwise_cons.mp sorted).1 m later
      unfold inOrder at order
      exact ofHead (parked.unique m there l (sound.read l (sound.left l head)) place (by omega))

theorem restCovers (sound : Sound source s tool) (replay : tool.kind = .replay) (todo : tool.todo = l::rest)
    (done : l.parker = tool.service → Done s tool.service l) : Covers s tool.service rest := by
  intro l' mem m there parker place less
  have member : l' ∈ tool.todo := by
    rw [todo]
    exact List.mem_cons_of_mem _ mem
  rcases sound.remains replay l' member m there parker place less with before | left
  · exact .inl before
  · rw [todo] at left
    rcases List.mem_cons.mp left with rfl | later
    · exact .inl (done parker)
    · exact .inr later

theorem othersCovers (sound : Sound source s tool) (replay : tool.kind = .replay) (todo : tool.todo = l::rest) :
    Covers s tool.service (rest.filter (fun other => other.partition != l.partition)) := by
  intro l' mem m there parker place less
  simp only [List.mem_filter,bne_iff_ne,ne_eq] at mem ⊢
  have member : l' ∈ tool.todo := by
    rw [todo]
    exact List.mem_cons_of_mem _ mem.1
  rcases sound.remains replay l' member m there parker place less with before | left
  · exact .inl before
  · rw [todo] at left
    rcases List.mem_cons.mp left with rfl | later
    · exact absurd place.symm mem.2
    · exact .inr ⟨later,by rw [place]; exact mem.2⟩

theorem firstClear (parked : Parked s) (sound : Sound source s tool) (read : l ∈ tool.recs)
    (isFirst : isFirst tool.service tool.recs l = true) (done : l.parker = tool.service → Done s tool.service l) :
    Clear s tool.service l.partition (l.offset + 1) := by
  intro m there parker place less
  simp only [DLQ.isFirst,Bool.not_eq_true',List.any_eq_false,Bool.and_eq_true,beq_iff_eq,decide_eq_true_eq,
    not_and,Bool.not_eq_true] at isFirst
  rcases sound.covers l read m there parker place (by omega) with before | pending
  · exact before
  · have own := parked.own m there
    rw [parker] at own
    by_cases earlier : m.offset < l.offset
    · rw [isFirst m pending ⟨place,earlier⟩] at own
      contradiction
    · have same := parked.unique m there l (sound.read l read) place (by omega)
      subst same
      exact done parker

theorem soundPassed (parked : Parked s) (sound : Sound source s tool) (replay : tool.kind = .replay)
    (todo : tool.todo = l::rest) (done : l.parker = tool.service → Done s tool.service l) :
    Sound source s {tool with call := none, todo := rest, done := (l.partition,l.offset + 1)::tool.done} := by
  have sorted := sound.sorted
  rw [todo] at sorted
  have left {m : Letter} (mem : m ∈ l::rest) : m ∈ tool.recs := sound.left m (by rwa [todo])
  have clear := headClear parked sound replay todo done
  have covers := restCovers sound replay todo done
  exact {
    read := sound.read
    covers := sound.covers
    drops := fun only kind => Kind.noConfusion (replay.symm.trans kind)
    left := fun m mem => left (List.mem_cons_of_mem _ mem)
    sorted := (List.pairwise_cons.mp sorted).2
    remains := fun _ => covers
    mine := fun _ _ kind => Kind.noConfusion (replay.symm.trans kind)
    marked := fun mark mem => by
      rcases List.mem_cons.mp mem with rfl | old
      · exact ⟨l,left List.mem_cons_self,rfl⟩
      · exact sound.marked mark old
    passed := fun replays mark mem => by
      rcases List.mem_cons.mp mem with rfl | old
      · exact clear
      · exact sound.passed replays mark old
    calling := fun _ none' => by cases none' }

theorem soundOne {partition offset : Nat} {done : List (Nat × Nat)} {ended : Bool} (sound : Sound source s tool)
    (one : tool.kind = .replayOne partition offset)
    (marks : ∀ mark ∈ done, ∃ l ∈ tool.recs, mark = (l.partition,l.offset + 1) ∧
      Clear s tool.service l.partition (l.offset + 1)) :
    Sound source s {tool with call := none, todo := [], done := done, ended := ended} where
  read := sound.read
  covers := sound.covers
  drops := fun only kind => Kind.noConfusion (one.symm.trans kind)
  left := fun _ mem => absurd mem List.not_mem_nil
  sorted := .nil
  remains := fun kind => Kind.noConfusion (one.symm.trans kind)
  mine := fun _ _ _ _ mem => absurd mem List.not_mem_nil
  marked := fun mark mem => by
    obtain ⟨l,there,same,-⟩ := marks mark mem
    exact ⟨l,there,same⟩
  passed := fun _ mark mem => by
    obtain ⟨l,there,rfl,clear⟩ := marks mark mem
    exact clear
  calling := fun _ none' => by cases none'

theorem soundStopped (sound : Sound source s tool) (replay : tool.kind = .replay) (todo : tool.todo = l::rest) :
    Sound source s {tool with
      call := none, todo := rest.filter (fun other => other.partition != l.partition)} := by
  have sorted := sound.sorted
  rw [todo] at sorted
  have covers := othersCovers sound replay todo
  exact {
    read := sound.read
    covers := sound.covers
    drops := fun only kind => Kind.noConfusion (replay.symm.trans kind)
    left := fun m mem => sound.left m (by
      rw [todo]
      exact List.mem_cons_of_mem _ (List.mem_filter.mp mem).1)
    sorted := (List.pairwise_cons.mp sorted).2.sublist List.filter_sublist
    remains := fun _ => covers
    mine := fun _ _ kind => Kind.noConfusion (replay.symm.trans kind)
    marked := sound.marked
    passed := sound.passed
    calling := fun _ none' => by cases none' }

theorem afterSound {nil : Bool} (parked : Parked s) (sound : Sound source s tool) (todo : tool.todo = l::rest)
    (done : nil = true → l.parker = tool.service → Done s tool.service l) :
    Sound source s (after tool l rest nil) := by
  have head : l ∈ tool.recs := sound.left l (by rw [todo]; exact List.mem_cons_self)
  have kept (replays : ∀ only, tool.kind ≠ .drop only) : ∀ mark ∈ tool.done, ∃ l ∈ tool.recs,
      mark = (l.partition,l.offset + 1) ∧ Clear s tool.service l.partition (l.offset + 1) := by
    intro mark mem
    obtain ⟨l,there,rfl⟩ := sound.marked mark mem
    exact ⟨l,there,rfl,sound.passed replays _ mem⟩
  unfold after
  split
  · rename_i partition offset one
    cases nil with
    | true =>
      simp only [if_true]
      refine soundOne sound one (fun mark mem => ?_)
      split at mem
      · rename_i isFirst
        cases List.mem_singleton.mp mem
        exact ⟨l,head,rfl,firstClear parked sound head isFirst (done rfl)⟩
      · exact absurd mem List.not_mem_nil
    | false => exact soundOne sound one (kept (fun only same => Kind.noConfusion (one.symm.trans same)))
  · rename_i other
    have replay : tool.kind = .replay := by
      cases kind : tool.kind with
      | replay => rfl
      | replayOne partition offset => exact absurd kind (other partition offset)
      | drop only =>
        rw [(sound.drops only kind).1] at todo
        contradiction
    cases nil with
    | true => exact soundPassed parked sound replay todo (done rfl)
    | false => exact soundStopped sound replay todo

end Tools
structure Positioned (s : State) : Prop where
  clear : ∀ service partition, Clear s service partition (s.position service partition)
  below : ∀ service partition, s.position service partition ≤ s.fresh partition

structure Watched (source : String) (s : State) : Prop where
  parked : Parked s
  backed : AllBacked s
  tools : ∀ tool ∈ s.tools, Sound source s tool
  positioned : Positioned s

theorem resultDone {i : Nat} {rest : List Letter} {how : End} (inv : Watched source s) (sound : Sound source s tool)
    (calls : tool.call = some i) (answer : s.calls[i]? = some call) (todo : tool.todo = l::rest)
    (ended : call.point = .ended how) (nil : (how == .handled || how == .duplicate) = true) :
    Done s tool.service l := by
  obtain ⟨l',rest',call',todo',found,whose,isTool,original⟩ := sound.calling i calls
  cases todo.symm.trans todo'
  cases Option.some.inj (answer.symm.trans found)
  simp only [Bool.or_eq_true,beq_iff_eq] at nil
  rcases nil with rfl | rfl
  · exact .inl ⟨call,List.mem_of_getElem? answer,ended,whose,by rw [original]; rfl,fun _ => by rw [original]; rfl⟩
  · obtain ⟨full,other,mem,handled,same,event⟩ := (inv.backed i call answer).duplicate isTool ended
    have id : call.original.record.id = l.id := by rw [original]; rfl
    exact .inl ⟨other,mem,handled,same.trans whose,event.trans id,fun empty => absurd (id.trans empty) full⟩

theorem startRead {kind : Kind} {reads : List Nat} (inv : Watched source s) (sure : Sure s (.command service kind reads)) :
    Sound source s (start service kind (s.pending service reads)) := by
  refine startSound (fun l mem => (List.mem_filter.mp mem).1) (pendingCovers (inv.positioned.clear service)) ?_
  rintro only rfl l mem parker
  cases only with
  | none => rfl
  | some offset =>
    simp only [Sure,DLQ.sure,List.all_eq_true,Bool.or_eq_true,bne_iff_ne,ne_eq,beq_iff_eq] at sure
    exact beq_iff_eq.mpr ((sure l mem).resolve_left (fun other => other parker))

theorem soundEnded (sound : Sound source s tool) : Sound source s {tool with ended := true} := {sound with}

theorem soundCrashed (sound : Sound source s tool) :
    Sound source s {tool with todo := [], call := none, ended := true} where
  read := sound.read
  covers := sound.covers
  drops := fun only kind => ⟨rfl,(sound.drops only kind).2⟩
  left := fun _ mem => absurd mem List.not_mem_nil
  sorted := .nil
  remains := fun _ _ mem => absurd mem List.not_mem_nil
  mine := fun _ _ _ _ mem => absurd mem List.not_mem_nil
  marked := sound.marked
  passed := sound.passed
  calling := fun _ none' => by cases none'

theorem soundCalling {i : Nat} {rest : List Letter} {p : Point} (sound : Sound source s tool)
    (todo : tool.todo = l::rest) (found : s.calls[i]? = some ⟨tool.service,true,rebuilt source l,p⟩) :
    Sound source s {tool with call := some i} :=
  {sound with
    calling := fun j calls => by
      cases Option.some.inj calls
      exact ⟨l,rest,_,todo,found,rfl,rfl,rfl⟩}

theorem toolsStep (inv : Watched source s) (sure : Sure s a) (does : Does source cfg s a t) :
    ∀ tool ∈ t.tools, Sound source t tool := by
  intro now mem
  have grows := doesGrows does
  have kept {tool : Tool} (sound : Sound source s tool) : Sound source t tool := soundGrows inv.parked grows sound
  have changed {k : Nat} {tool : Tool} (fine : Sound source t tool) (tools : t.tools = s.tools.set k tool) :
      Sound source t now := by
    rw [tools] at mem
    rcases List.mem_or_eq_of_mem_set mem with there | rfl
    · exact kept (inv.tools now there)
    · exact fine
  cases does with
  | tick | consume | duplicate | moves | parks => exact kept (inv.tools now mem)
  | command service kind reads =>
    rcases List.mem_append.mp mem with there | new
    · exact kept (inv.tools now there)
    · cases List.mem_singleton.mp new
      exact kept (startRead inv sure)
  | @begins k tool l rest found todo mine =>
    have sound := kept (inv.tools tool (List.mem_of_getElem? found))
    exact changed (soundCalling sound todo List.getElem?_concat_length) rfl
  | @skips k tool l rest found todo foreign =>
    have sound := inv.tools tool (List.mem_of_getElem? found)
    have head : l ∈ tool.todo := by
      rw [todo]
      exact List.mem_cons_self
    have replay : tool.kind = .replay := by
      cases kind : tool.kind with
      | replay => rfl
      | replayOne partition offset =>
        rw [sound.mine partition offset kind l head] at foreign
        contradiction
      | drop only =>
        rw [(sound.drops only kind).1] at todo
        contradiction
    refine changed (kept (soundPassed inv.parked sound replay todo (fun own => ?_))) rfl
    have here := inv.parked.own l (sound.read l (sound.left l head))
    rw [own,foreign] at here
    contradiction
  | @results k i l rest how tool call found calls answer todo ended =>
    have sound := inv.tools tool (List.mem_of_getElem? found)
    exact changed (kept (afterSound inv.parked sound todo
      (fun nil _ => resultDone inv sound calls answer todo ended nil))) rfl
  | @commits k tool _ found | @refused k tool _ found =>
    exact changed (soundEnded (kept (inv.tools tool (List.mem_of_getElem? found)))) rfl
  | @crashes k tool found => exact changed (soundCrashed (kept (inv.tools tool (List.mem_of_getElem? found)))) rfl

theorem committedClear {k partition offset : Nat} (inv : Watched source s)
    (found : s.tools[k]? = some tool) (mem : (partition,offset) ∈ tool.done)
    (grows : Grows s t) (dropped : t.dropped = s.dropped ++ (tool.recs.filter tool.kind.drops).map (fun l => (tool.service,l))) :
    Clear t tool.service partition offset := by
  have sound := inv.tools tool (List.mem_of_getElem? found)
  by_cases replays : ∀ only, tool.kind ≠ .drop only
  · exact clearGrows grows (markBelow inv.parked sound mem) (sound.passed replays _ mem)
  · simp only [ne_eq,not_forall,Decidable.not_not] at replays
    obtain ⟨only,kind⟩ := replays
    obtain ⟨l,there,same⟩ := sound.marked _ mem
    cases same
    have clear : ∀ m ∈ s.letters, m.parker = tool.service → m.partition = l.partition → m.offset < l.offset + 1 →
        Done t tool.service m := by
      intro m old parker place less
      rcases sound.covers l there m old parker place (by omega) with before | read
      · exact doneGrows grows before
      · have asked := (sound.drops only kind).2 m read parker
        refine .inr ?_
        rw [dropped]
        exact List.mem_append_right _ (List.mem_map_of_mem (List.mem_filter.mpr ⟨read,asked⟩))
    intro m mem' parker place less
    rcases grows.behind m mem' with old | new
    · exact clear m old parker place less
    · have below := inv.parked.below l (sound.read l there)
      rw [place] at new
      omega

theorem freshGrows (does : Does source cfg s a t) (p : Nat) : s.fresh p ≤ t.fresh p := by
  rcases doesLetters does with same | ⟨i,partition,cause,reply,call,-,-,-,letters⟩
  · simp only [State.fresh,same,Nat.le_refl]
  · simp only [State.fresh,letters,freshConcat]
    omega

theorem positionedStep (inv : Watched source s) (does : Does source cfg s a t) : Positioned t := by
  have grows := doesGrows does
  have fresh := freshGrows does
  have kept (service : String) (p : Nat) : Clear t service p (s.position service p) ∧ s.position service p ≤ t.fresh p :=
    ⟨clearGrows grows (inv.positioned.below service p) (inv.positioned.clear service p),
      Nat.le_trans (inv.positioned.below service p) (fresh p)⟩
  cases does with
  | @commits k tool _ found =>
    have sound := inv.tools tool (List.mem_of_getElem? found)
    constructor
    · intro service p
      dsimp only
      split
      · rename_i whose
        subst whose
        cases mark : tool.done.lookup p with
        | none => exact (kept tool.service p).1
        | some o => exact committedClear inv found (lookupMem mark) grows rfl
      · exact (kept service p).1
    · intro service p
      dsimp only
      split
      · rename_i whose
        subst whose
        cases mark : tool.done.lookup p with
        | none => exact (kept tool.service p).2
        | some o => exact Nat.le_trans (markBelow inv.parked sound (lookupMem mark)) (fresh p)
      · exact (kept service p).2
  | _ => exact ⟨fun service p => (kept service p).1,fun service p => (kept service p).2⟩

theorem watchedStep (inv : Watched source s) (sure : Sure s a) (does : Does source cfg s a t) : Watched source t :=
  ⟨parkedStep inv.parked sure does,backedStep inv.backed sure does,toolsStep inv sure does,positionedStep inv does⟩

theorem startWatched (source : String) (clock : Int) : Watched source (State.init clock) where
  parked := ⟨fun _ mem => absurd mem List.not_mem_nil,fun _ mem => absurd mem List.not_mem_nil,
    fun _ mem => absurd mem List.not_mem_nil⟩
  backed := fun _ _ found => by simp [State.init] at found
  tools := fun _ mem => absurd mem List.not_mem_nil
  positioned := ⟨fun _ _ _ mem => absurd mem List.not_mem_nil,fun _ _ => Nat.zero_le _⟩

theorem positionGuarded (source : String) (cfg : String → Config) (clock : Int) (as : List Action) (s : State)
    (sure : Along (step source cfg) Sure (State.init clock) as)
    (ok : run (step source cfg) (State.init clock) as = some s) : Guarded s := by
  have inv := runKeeps (fun inv sure one => watchedStep inv sure (stepDoes one)) (startWatched source clock) sure ok
  intro l mem passed
  exact inv.positioned.clear l.parker l.partition l mem rfl rfl passed

def debit : Original := ⟨⟨⟨"events.debit",0⟩,5,some "e1"⟩,"7","{}",[]⟩
def once : String → Config := fun _ => ⟨1,true,0⟩

def parking (service : String) (i : Nat) : List Action :=
  [.consume service debit,.seen i .ok,.attempt i false false,.forget i .ok,.judge i false,.park i 0 "no account" .ok]

def replayed : List Action :=
  parking "wallet" 0 ++ parking "mail" 1 ++
    [.command "wallet" .replay [2],.next 0,.seen 2 .ok,.attempt 2 true false,.result 0,.next 0,.commit 0 .ok,
      .command "mail" (.drop none) [2],.commit 1 .ok]

theorem replayedGuarded : ∃ s, run (step "events.debit" once) (State.init 0) replayed = some s ∧
    s.letters.map Letter.offset = [0,1] ∧ s.position "wallet" 0 = 2 ∧ s.position "mail" 0 = 2 ∧ Guarded s := by
  have facts : (run (step "events.debit" once) (State.init 0) replayed).map
      (fun s => (s.letters.map Letter.offset,s.position "wallet" 0,s.position "mail" 0)) =
      some ([0,1],2,2) := by decide
  obtain ⟨s,ok,same⟩ := Option.map_eq_some_iff.mp facts
  simp only [Prod.mk.injEq] at same
  exact ⟨s,ok,same.1,same.2.1,same.2.2,positionGuarded "events.debit" once 0 replayed s (by decide) ok⟩

/- The tool dies while the handler runs; the next replay meets the key it left. -/
def killed : List Action :=
  parking "wallet" 0 ++ [.command "wallet" .replay [1],.next 0,.seen 1 .ok,.crash 1,.crashTool 0,.tick 60000,
    .command "wallet" .replay [1],.next 1,.seen 2 .ok,.result 1,.commit 1 .ok]

theorem positionPasses : ¬ ∀ source cfg clock as s, run (step source cfg) (State.init clock) as = some s → Guarded s := by
  intro guarded
  have facts : (run (step "events.debit" once) (State.init 0) killed).map (fun s =>
      (s.letters.map (fun l => (l.parker,l.partition,l.offset)),s.position "wallet" 0,s.calls.map Call.point,s.dropped.length)) =
      some ([("wallet",0,0)],1,[.ended .parked,.dead,.ended .duplicate],0) := by decide
  obtain ⟨s,ok,same⟩ := Option.map_eq_some_iff.mp facts
  simp only [Prod.mk.injEq] at same
  obtain ⟨letters,position,points,dropped⟩ := same
  obtain ⟨l,only,place⟩ := List.map_eq_singleton_iff.mp letters
  simp only [Prod.mk.injEq] at place
  obtain ⟨parker,partition,offset⟩ := place
  have passed : l.offset < s.position l.parker l.partition := by
    rw [parker,partition,offset,position]
    exact Nat.zero_lt_one
  rcases guarded "events.debit" once 0 killed s ok l (by rw [only]; exact List.mem_singleton_self l) passed with
    ⟨call,mem,handled,-⟩ | drop
  · have point := List.mem_map_of_mem (f := Call.point) mem
    rw [points,handled] at point
    simp at point
  · rw [List.length_eq_zero_iff.mp dropped] at drop
    exact absurd drop List.not_mem_nil

end DevkitCommon.Kafkax.DLQ
