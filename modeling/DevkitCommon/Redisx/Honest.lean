import DevkitCommon.Redisx.Exclusion

/-! What the error of WithLock says about the lock. The key's loss is told by the extend
script alone: the answer of the release script is not looked at, an extend that fails says
nothing, and the keeper does not look again once fn is over. -/
namespace DevkitCommon.Redisx
open Machine Redis

def Owns (s : State) (c : Nat) (call : Call) : Prop :=
  get s.keys s.clock call.request.name = some c
instance (s : State) (c : Nat) (call : Call) : Decidable (Owns s c call) := by unfold Owns; infer_instance

def Uninterrupted (c : Nat) (s : State) (_ : Action) : Prop :=
  ∀ call ∈ s.calls[c]?, call.point.claims = true → Owns s c call
instance (c : Nat) (s : State) (a : Action) : Decidable (Uninterrupted c s a) := by
  unfold Uninterrupted; infer_instance

def Action.returns (c : Nat) : Action → Bool
  | .finish d _ => d == c
  | _ => false

def HeldAtReturn (c : Nat) (s : State) (a : Action) : Prop :=
  ∀ call ∈ s.calls[c]?, a.returns c = true → Owns s c call
instance (c : Nat) (s : State) (a : Action) : Decidable (HeldAtReturn c s a) := by
  unfold HeldAtReturn; infer_instance

def Confirmed (c : Nat) (s : State) (a : Action) : Prop :=
  ∀ call ∈ s.calls[c]?, a = .extend c .ok → Owns s c call
instance (c : Nat) (s : State) (a : Action) : Decidable (Confirmed c s a) := by
  unfold Confirmed; infer_instance

def Action.of : Action → Option Nat
  | .tick _ | .call _ | .drop _ => none
  | .setNX c _ | .answer c | .wake c | .giveUp c | .fire c | .extend c _ | .notice c | .ctxDone c | .finish c _
  | .stop c | .release c _ | .crash c => some c

def Point.working : Point → Bool
  | .running | .closing _ => true
  | _ => false

section Turns
variable (s : State) (i : Nat) (call : Call)

inductive Turns : Action → Point → Keeper → Prop where
  | other {a} (foreign : a.of ≠ some i) : Turns a call.point call.keeper
  | tries {reply} (res : Option Bool) (here : call.point = .setNX) :
      Turns (.setNX i reply) (.asked res) call.keeper
  | answers {res p} (here : call.point = .asked res) (next : (p = .running ∧ res = some true) ∨
      res ≠ some true ∧ ((∃ u, p = .pause u) ∨ p = .returned .redis ∨ p = .returned .locked)) :
      Turns (.answer i) p call.keeper
  | wakes {u} (here : call.point = .pause u) : Turns (.wake i) .setNX call.keeper
  | givesUp {u} (here : call.point = .pause u) : Turns (.giveUp i) (.returned .ctx) call.keeper
  | fires (here : call.point.working = true) (idle : call.keeper = .idle) : Turns (.fire i) call.point .sent
  | prolongs {reply} (sent : call.keeper = .sent) :
      Turns (.extend i reply) call.point (.answered (if reply = .ok then some (decide (Owns s i call)) else none))
  | loses (told : call.keeper = .answered (some false)) : Turns (.notice i) call.point .over
  | goesOn {res} (told : call.keeper = .answered res) (fine : res ≠ some false) :
      Turns (.notice i) call.point .idle
  | ends : Turns (.ctxDone i) call.point call.keeper
  | finishes {failed} (here : call.point = .running) : Turns (.finish i failed) (.closing failed) call.keeper
  | stops {failed} (here : call.point = .closing failed) (idle : call.keeper = .idle) :
      Turns (.stop i) (.release failed) .over
  | isLost {failed} (here : call.point = .closing failed) (left : call.keeper = .over) :
      Turns (.stop i) (.returned .lost) .over
  | releases {reply failed} (here : call.point = .release failed) :
      Turns (.release i reply) (.returned (.done failed)) call.keeper
  | crashes (here : ∀ r, call.point ≠ .returned r) : Turns (.crash i) .crashed call.keeper

end Turns

variable {env : Env} {s t : State} {a : Action} {reply : Reply} {c i : Nat} {call call' : Call} {r : Result}

theorem triedNext (res : Option Bool) : (tried s call res = .running ∧ res = some true) ∨
    res ≠ some true ∧ ((∃ u, tried s call res = .pause u) ∨ tried s call res = .returned .redis ∨
      tried s call res = .returned .locked) := by
  match res with
  | none => exact .inr ⟨by simp,.inr (.inl rfl)⟩
  | some true => exact .inl ⟨rfl,rfl⟩
  | some false =>
    refine .inr ⟨by simp,?_⟩
    simp only [tried]
    split
    · exact .inr (.inr rfl)
    · exact .inl ⟨_,rfl⟩

theorem ownTurns (own : a.of = some c) (one : step env s a = some t) :
    ∃ call call' keys, s.calls[c]? = some call ∧ t = {s with keys := keys}.setCall c call' ∧
      call'.request = call.request ∧ Turns s c call a call'.point call'.keeper := by
  cases a <;> simp only [Action.of,Option.some.injEq,reduceCtorEq] at own <;> subst own <;>
    simp only [step,bind,Option.bind_eq_some_iff,Option.some.injEq] at one <;>
    obtain ⟨call,found,last⟩ := one
  case setNX reply =>
    split at last <;> try contradiction
    rename_i here
    cases Option.some.inj last
    exact ⟨call,_,_,found,rfl,rfl,.tries _ here⟩
  case answer =>
    split at last <;> try contradiction
    rename_i res here
    cases Option.some.inj last
    exact ⟨call,_,s.keys,found,rfl,rfl,.answers here (triedNext _)⟩
  case wake =>
    split at last <;> try contradiction
    rename_i here
    split at last <;> try contradiction
    cases Option.some.inj last
    exact ⟨call,_,s.keys,found,rfl,rfl,.wakes here⟩
  case giveUp =>
    split at last <;> try contradiction
    rename_i here
    split at last <;> try contradiction
    cases Option.some.inj last
    exact ⟨call,_,s.keys,found,rfl,rfl,.givesUp here⟩
  case fire =>
    split at last <;> try contradiction
    all_goals
      rename_i here idle
      cases Option.some.inj last
      exact ⟨call,_,s.keys,found,rfl,rfl,.fires (by rw [here]; rfl) idle⟩
  case extend reply =>
    split at last <;> try contradiction
    rename_i sent
    split at last <;> cases Option.some.inj last
    · refine ⟨call,_,_,found,rfl,rfl,?_⟩
      simp only [expireIfAnswer]
      exact .prolongs sent
    · refine ⟨call,_,s.keys,found,rfl,rfl,?_⟩
      simp only [expireIfAnswer]
      exact .prolongs sent
  case notice =>
    split at last <;> try contradiction
    · rename_i told
      cases Option.some.inj last
      exact ⟨call,_,s.keys,found,rfl,rfl,.loses told⟩
    · rename_i res fine told
      cases Option.some.inj last
      exact ⟨call,_,s.keys,found,rfl,rfl,.goesOn told fine⟩
  case ctxDone =>
    cases last
    exact ⟨call,_,s.keys,found,rfl,rfl,.ends⟩
  case finish failed =>
    split at last <;> try contradiction
    rename_i here
    cases Option.some.inj last
    exact ⟨call,_,s.keys,found,rfl,rfl,.finishes here⟩
  case stop =>
    split at last <;> try contradiction
    · rename_i here idle
      cases Option.some.inj last
      exact ⟨call,_,s.keys,found,rfl,rfl,.stops here idle⟩
    · rename_i here left
      cases Option.some.inj last
      refine ⟨call,_,s.keys,found,rfl,rfl,?_⟩
      simp only [left]
      exact .isLost here left
  case release reply =>
    split at last <;> try contradiction
    rename_i here
    cases Option.some.inj last
    exact ⟨call,_,_,found,rfl,rfl,.releases here⟩
  case crash =>
    split at last <;> try contradiction
    rename_i open' _
    cases Option.some.inj last
    exact ⟨call,_,s.keys,found,rfl,rfl,.crashes open'⟩

theorem foreignTurns (found : s.calls[i]? = some call) (foreign : a.of ≠ some i)
    (one : step env s a = some t) : t.calls[i]? = some call := by
  cases whose : a.of with
  | none =>
    cases a <;> simp only [Action.of,reduceCtorEq] at whose <;> cases Option.some.inj one
    · exact found
    · rwa [List.getElem?_append_left (List.getElem?_eq_some_iff.mp found).1]
    · exact found
  | some c =>
    have differs : c ≠ i := fun same => foreign (same ▸ whose)
    obtain ⟨-,_,_,-,rfl,-,-⟩ := ownTurns whose one
    simpa only [State.setCall,List.getElem?_set_ne differs] using found

theorem stepTurns (found : s.calls[i]? = some call) (one : step env s a = some t) :
    ∃ call', t.calls[i]? = some call' ∧ call'.request = call.request ∧
      Turns s i call a call'.point call'.keeper := by
  by_cases foreign : a.of = some i
  · obtain ⟨there,call',_,here,rfl,same,turns⟩ := ownTurns foreign one
    cases Option.some.inj (found.symm.trans here)
    exact ⟨call',List.getElem?_set_self (List.getElem?_eq_some_iff.mp found).1,same,turns⟩
  · exact ⟨call,foreignTurns found foreign one,rfl,.other foreign⟩

theorem neverRegained (found : s.calls[i]? = some call) (past : call.point ≠ .setNX)
    (one : step env s a = some t) (owns : Owns t i call) : Owns s i call := by
  unfold Owns at owns ⊢
  cases stepDoes one with
  | tick d => exact getBefore owns (show s.clock ≤ s.clock + d by omega)
  | call r => exact owns
  | drop name =>
    obtain ⟨e,kept,live,value⟩ := getExact.mp owns
    exact getExact.mpr ⟨e,(delKeeps kept).2,live,value⟩
  | @move _ c call₀ _ _ there moves =>
    cases moves with
    | tries here =>
      have foreign : i ≠ c := by
        rintro rfl
        cases Option.some.inj (found.symm.trans there)
        exact past here
      dsimp only [State.setCall] at owns
      split at owns
      · exact setNXFrom foreign owns
      · exact owns
    | prolongs => exact expireIfFrom owns
    | releases =>
      dsimp only [State.setCall] at owns
      split at owns
      · exact delIfFrom owns
      · exact owns
    | other => exact owns

section Points
variable {p : Point} {k : Keeper}

theorem crashedStays (crashed : call.point = .crashed) (turns : Turns s i call a p k) : p = .crashed := by
  cases turns with
  | other => exact crashed
  | fires => exact crashed
  | prolongs => exact crashed
  | loses => exact crashed
  | goesOn => exact crashed
  | ends => exact crashed
  | crashes => rfl
  | tries _ here => exact Point.noConfusion (crashed.symm.trans here)
  | answers here => exact Point.noConfusion (crashed.symm.trans here)
  | wakes here => exact Point.noConfusion (crashed.symm.trans here)
  | givesUp here => exact Point.noConfusion (crashed.symm.trans here)
  | finishes here => exact Point.noConfusion (crashed.symm.trans here)
  | stops here => exact Point.noConfusion (crashed.symm.trans here)
  | isLost here => exact Point.noConfusion (crashed.symm.trans here)
  | releases here => exact Point.noConfusion (crashed.symm.trans here)

theorem askedClaims {res : Option Bool} (claims : (Point.asked res).claims = true) : res = some true := by
  match res with
  | some true => rfl
  | some false | none => contradiction

theorem claimsNext (claims : call.point.claims = true) (turns : Turns s i call a p k) :
    p.claims = true ∨ p = .crashed ∨ a.returns i = true := by
  have idle {q : Point} (here : call.point = q) (none' : q.claims = false) : False := by
    rw [here,none'] at claims
    contradiction
  cases turns with
  | other | fires | prolongs | loses | goesOn | ends => exact .inl claims
  | answers here next =>
    rcases next with ⟨rfl,-⟩ | ⟨differs,-⟩
    · exact .inl rfl
    · rw [here] at claims
      exact absurd (askedClaims claims) differs
  | crashes => exact .inr (.inl rfl)
  | finishes => exact .inr (.inr (beq_self_eq_true i))
  | tries _ here | wakes here | givesUp here | stops here | isLost here | releases here =>
    exact (idle here rfl).elim

end Points

theorem returnsRunning (found : s.calls[i]? = some call) (returns : a.returns i = true)
    (one : step env s a = some t) : call.point = .running := by
  obtain ⟨call',-,-,turns⟩ := stepTurns found one
  generalize call'.point = p at turns
  generalize call'.keeper = k at turns
  cases a <;> simp only [Action.returns,beq_iff_eq,Bool.false_eq_true] at returns
  subst returns
  cases turns with
  | other foreign => exact absurd rfl foreign
  | finishes here => exact here

def Gone (c : Nat) (s : State) : Prop :=
  ∃ call, s.calls[c]? = some call ∧ (call.point = .crashed ∨ call.point.claims = true ∧ ¬ Owns s c call)

theorem goneStep (gone : Gone c s) (kept : HeldAtReturn c s a) (one : step env s a = some t) : Gone c t := by
  obtain ⟨call,found,gone⟩ := gone
  obtain ⟨call',found',same,turns⟩ := stepTurns found one
  refine ⟨call',found',?_⟩
  rcases gone with crashed | ⟨claims,lost⟩
  · exact .inl (crashedStays crashed turns)
  · rcases claimsNext claims turns with still | crashed | returns
    · refine .inr ⟨still,fun owns => lost ?_⟩
      have past : call.point ≠ .setNX := by
        intro early
        rw [early] at claims
        contradiction
      refine neverRegained found past one ?_
      rwa [Owns,same] at owns
    · exact .inl crashed
    · exact absurd (kept call found returns) lost

theorem heldThroughout {as : List Action} (ok : run (step env) s as = some t)
    (found : t.calls[c]? = some call) (ends : call.point = .returned r)
    (held : Along (step env) (HeldAtReturn c) s as) : Along (step env) (Uninterrupted c) s as := by
  by_contra breaks
  obtain ⟨u,a,v,back,fails,one,later,front,rfl,before⟩ := alongBreaks breaks ok
  obtain ⟨-,rest⟩ := alongAppend before held
  have gone : Gone c u := by
    simp only [Uninterrupted,not_forall] at fails
    obtain ⟨call,there,claims,lost⟩ := fails
    exact ⟨call,there,.inr ⟨claims,lost⟩⟩
  obtain ⟨last,there,gone⟩ := runKeeps goneStep gone rest (runCons.mpr ⟨v,one,later⟩)
  cases Option.some.inj (found.symm.trans there)
  rcases gone with crashed | ⟨claims,-⟩
  · exact Point.noConfusion (ends.symm.trans crashed)
  · rw [ends] at claims
    contradiction

theorem turnsBefore (found : t.calls[i]? = some call') (one : step env s a = some t) :
    (∃ call, s.calls[i]? = some call ∧ call'.request = call.request ∧ Turns s i call a call'.point call'.keeper) ∨
      call'.keeper = .idle ∧ call'.point ≠ .returned .lost := by
  cases before : s.calls[i]? with
  | some call =>
    obtain ⟨after,there,turns⟩ := stepTurns before one
    cases Option.some.inj (found.symm.trans there)
    exact .inl ⟨call,rfl,turns⟩
  | none =>
    cases stepDoes one with
    | tick d =>
      rw [show s.calls[i]? = some call' from found] at before
      contradiction
    | drop name =>
      rw [show s.calls[i]? = some call' from found] at before
      contradiction
    | call r =>
      rw [List.getElem?_append_right (List.getElem?_eq_none_iff.mp before)] at found
      cases List.mem_singleton.mp (List.mem_of_getElem? found)
      refine .inr ⟨rfl,?_⟩
      simp only [first]
      split
      · simp
      · split <;> simp
    | move =>
      have short := (List.getElem?_eq_some_iff.mp found).1
      simp only [State.setCall,List.length_set] at short
      exact absurd (List.getElem?_eq_none_iff.mp before) (Nat.not_le.mpr short)

section Warnings
variable {p : Point} {k : Keeper}

structure Paired (p : Point) (k : Keeper) : Prop where
  busy : k = .sent ∨ (∃ res, k = .answered res) → p.working = true ∨ p = .crashed
  fresh : p = .setNX ∨ (∃ u, p = .pause u) ∨ (∃ res, p = .asked res) → k = .idle

structure Unwarned (p : Point) (k : Keeper) : Prop where
  untold : k ≠ .answered (some false)
  notLost : p ≠ .returned .lost
  stopped : k = .over → p.working = false

structure Warned (p : Point) (k : Keeper) : Prop where
  told : k = .answered (some false) ∨ k = .over
  ends : p.working = true ∨ p = .crashed ∨ p = .returned .lost

theorem pairedTurns (before : Paired call.point call.keeper) (turns : Turns s i call a p k) : Paired p k := by
  obtain ⟨busy,fresh⟩ := before
  cases turns with
  | other => exact ⟨busy,fresh⟩
  | ends => exact ⟨busy,fresh⟩
  | fires here =>
    refine ⟨fun _ => .inl here,fun h => ?_⟩
    rcases h with h | ⟨u,h⟩ | ⟨res,h⟩ <;> simp [h,Point.working] at here
  | prolongs sent =>
    have waits := busy (.inl sent)
    refine ⟨fun _ => waits,fun h => ?_⟩
    rcases h with h | ⟨u,h⟩ | ⟨res,h⟩ <;> simp [h,Point.working] at waits
  | loses told =>
    have waits := busy (.inr ⟨_,told⟩)
    refine ⟨by simp,fun h => ?_⟩
    rcases h with h | ⟨u,h⟩ | ⟨res,h⟩ <;> simp [h,Point.working] at waits
  | goesOn => exact ⟨by simp,fun _ => rfl⟩
  | stops => exact ⟨by simp,by simp⟩
  | isLost => exact ⟨by simp,by simp⟩
  | finishes => exact ⟨fun _ => .inl rfl,by simp⟩
  | crashes => exact ⟨fun _ => .inr rfl,by simp⟩
  | tries _ here =>
    have idle := fresh (.inl here)
    exact ⟨by simp [idle],fun _ => idle⟩
  | answers here =>
    have idle := fresh (.inr (.inr ⟨_,here⟩))
    exact ⟨by simp [idle],fun _ => idle⟩
  | wakes here =>
    have idle := fresh (.inr (.inl ⟨_,here⟩))
    exact ⟨by simp [idle],fun _ => idle⟩
  | givesUp here =>
    have idle := fresh (.inr (.inl ⟨_,here⟩))
    exact ⟨by simp [idle],by simp⟩
  | releases here => exact ⟨fun h => absurd (busy h) (by simp [here,Point.working]),by simp⟩

theorem unwarnedTurns (before : Unwarned call.point call.keeper) (paired : Paired call.point call.keeper)
    (confirmed : a = .extend i .ok → Owns s i call) (turns : Turns s i call a p k) : Unwarned p k := by
  obtain ⟨untold,notLost,stopped⟩ := before
  cases turns with
  | other => exact ⟨untold,notLost,stopped⟩
  | ends => exact ⟨untold,notLost,stopped⟩
  | fires here => exact ⟨Keeper.noConfusion,notLost,fun h => Keeper.noConfusion h⟩
  | @prolongs reply sent =>
    refine ⟨fun told => ?_,notLost,fun h => Keeper.noConfusion h⟩
    split at told
    · rename_i ok
      have owns := confirmed (by rw [ok])
      simp only [owns,decide_true] at told
      contradiction
    · contradiction
  | loses told => exact absurd told untold
  | goesOn => exact ⟨Keeper.noConfusion,notLost,fun h => Keeper.noConfusion h⟩
  | stops => exact ⟨Keeper.noConfusion,Point.noConfusion,fun _ => rfl⟩
  | isLost here ended =>
    have idle := stopped ended
    rw [here] at idle
    contradiction
  | finishes here =>
    refine ⟨untold,Point.noConfusion,fun ended => ?_⟩
    have idle := stopped ended
    rw [here] at idle
    contradiction
  | crashes => exact ⟨untold,Point.noConfusion,fun _ => rfl⟩
  | tries => exact ⟨untold,Point.noConfusion,fun _ => rfl⟩
  | answers here next =>
    have idle := paired.fresh (.inr (.inr ⟨_,here⟩))
    refine ⟨untold,?_,by simp [idle]⟩
    rcases next with ⟨h,-⟩ | ⟨-,⟨u,h⟩ | h | h⟩ <;> simp [h]
  | wakes here => exact ⟨untold,Point.noConfusion,fun _ => rfl⟩
  | givesUp here => exact ⟨untold,by simp,fun _ => rfl⟩
  | releases here => exact ⟨untold,by simp,fun _ => rfl⟩

theorem warnedTurns (before : Warned call.point call.keeper) (turns : Turns s i call a p k) : Warned p k := by
  obtain ⟨told,ends⟩ := before
  cases turns with
  | other => exact ⟨told,ends⟩
  | ends => exact ⟨told,ends⟩
  | fires here idle => simp [idle] at told
  | prolongs sent => simp [sent] at told
  | loses => exact ⟨.inr rfl,ends⟩
  | goesOn answered fine =>
    rw [answered] at told
    simp [fine] at told
  | stops here idle => simp [idle] at told
  | isLost => exact ⟨.inr rfl,.inr (.inr rfl)⟩
  | finishes => exact ⟨told,.inl rfl⟩
  | crashes => exact ⟨told,.inr (.inl rfl)⟩
  | tries _ here => simp [here,Point.working] at ends
  | answers here => simp [here,Point.working] at ends
  | wakes here => simp [here,Point.working] at ends
  | givesUp here => simp [here,Point.working] at ends
  | releases here => simp [here,Point.working] at ends

end Warnings

def Ordered (s : State) : Prop :=
  ∀ (i : Nat) (call : Call), s.calls[i]? = some call → Paired call.point call.keeper

theorem orderedStep (ordered : Ordered s) (one : step env s a = some t) : Ordered t := by
  intro i call' found
  rcases turnsBefore found one with ⟨call,there,-,turns⟩ | ⟨idle,-⟩
  · exact pairedTurns (ordered i call there) turns
  · exact ⟨by simp [idle],fun _ => idle⟩

def Quiet (c : Nat) (s : State) : Prop :=
  Ordered s ∧ ∀ call, s.calls[c]? = some call → Unwarned call.point call.keeper

theorem quietStep (quiet : Quiet c s) (confirmed : Confirmed c s a) (one : step env s a = some t) :
    Quiet c t := by
  obtain ⟨ordered,unwarned⟩ := quiet
  refine ⟨orderedStep ordered one,fun call' found => ?_⟩
  rcases turnsBefore found one with ⟨call,there,-,turns⟩ | ⟨idle,starts⟩
  · exact unwarnedTurns (unwarned call there) (ordered c call there) (confirmed call there) turns
  · exact ⟨by simp [idle],starts,by simp [idle]⟩

def Told (c : Nat) (s : State) : Prop := ∃ call, s.calls[c]? = some call ∧ Warned call.point call.keeper

theorem toldStep (told : Told c s) (one : step env s a = some t) : Told c t := by
  obtain ⟨call,found,warned⟩ := told
  obtain ⟨call',found',-,turns⟩ := stepTurns found one
  exact ⟨call',found',warnedTurns warned turns⟩

theorem refusedTells (ordered : Ordered s) (refused : ¬ Confirmed c s a) (one : step env s a = some t) :
    Told c t := by
  simp only [Confirmed,not_forall] at refused
  obtain ⟨call,found,rfl,lost⟩ := refused
  obtain ⟨call',found',-,turns⟩ := stepTurns found one
  refine ⟨call',found',?_⟩
  generalize call'.point = p at turns ⊢
  generalize call'.keeper = k at turns ⊢
  cases turns with
  | other foreign => exact absurd rfl foreign
  | prolongs sent =>
    refine ⟨.inl (by simp [lost]),?_⟩
    rcases (ordered c call found).busy (.inl sent) with working | crashed
    · exact .inl working
    · exact .inr (.inl crashed)

section Runs
variable {clock : Int} {as : List Action}

theorem startOrdered : Ordered (State.init clock) := by
  intro i call found
  simp [State.init] at found

theorem lostExact (ok : run (step env) (State.init clock) as = some s) (found : s.calls[c]? = some call)
    (ends : call.point = .returned r) : r = .lost ↔ ¬ Along (step env) (Confirmed c) (State.init clock) as := by
  constructor
  · rintro rfl confirmed
    have start : Quiet c (State.init clock) := ⟨startOrdered,fun call found => by simp [State.init] at found⟩
    exact ((runKeeps quietStep start confirmed ok).2 call found).notLost ends
  · intro refused
    obtain ⟨u,a,v,back,fails,one,later,front,-,before⟩ := alongBreaks refused ok
    have ordered : Ordered u := reachableKeeps orderedStep startOrdered ⟨front,before⟩
    obtain ⟨call',there,warned⟩ :=
      runKeeps (fun told _ one => toldStep told one) (refusedTells ordered fails one) (alongTrue v back) later
    cases Option.some.inj (found.symm.trans there)
    rcases warned.ends with h | h | h
    · simp [ends,Point.working] at h
    · simp [ends] at h
    · exact Point.returned.inj (ends.symm.trans h)

theorem lockHonest (ok : run (step env) (State.init clock) as = some s) (found : s.calls[c]? = some call)
    (ends : call.point = .returned r) :
    (r ≠ .lost → Along (step env) (Uninterrupted c) (State.init clock) as) ↔
      Along (step env) (HeldAtReturn c) (State.init clock) as ∨
        ¬ Along (step env) (Confirmed c) (State.init clock) as := by
  have reported := lostExact ok found ends
  constructor
  · intro honest
    by_cases lost : r = .lost
    · exact .inr (reported.mp lost)
    · refine .inl (alongWeaken (fun held one => ?_) (honest lost))
      intro call there returns
      exact held call there (by rw [returnsRunning there returns one]; rfl)
  · rintro (held | refused) notLost
    · exact heldThroughout ok found ends held
    · exact absurd (reported.mpr refused) notLost

end Runs

theorem hiccupHonest : ∃ s call, run (step ⟨true⟩) (State.init 0) oneHiccup = some s ∧ s.calls[0]? = some call ∧
    call.point = .returned (.done false) ∧ Along (step ⟨true⟩) (Uninterrupted 0) (State.init 0) oneHiccup := by
  have facts : (run (step ⟨true⟩) (State.init 0) oneHiccup).map (fun s => (s.calls[0]?).map Call.point) =
      some (some (.returned (.done false))) := by decide
  obtain ⟨s,ok,point⟩ := Option.map_eq_some_iff.mp facts
  obtain ⟨call,found,ends⟩ := Option.map_eq_some_iff.mp point
  have held : Along (step ⟨true⟩) (HeldAtReturn 0) (State.init 0) oneHiccup := by decide
  exact ⟨s,call,ok,found,ends,(lockHonest ok found ends).mpr (.inl held) Result.noConfusion⟩

/- The key is deleted between the keeper's last extend and fn's end: the release script
answers 0, and the call returns as if nothing had happened. -/
def deletedUnseen : List Action :=
  [.call settle,.setNX 0 .ok,.answer 0,.tick 3000,.fire 0,.extend 0 .ok,.notice 0,.tick 500,.drop settle.name,
    .call settle,.setNX 1 .ok,.answer 1,.tick 500,.finish 0 false,.stop 0,.release 0 .ok]

theorem lossUnreported : ¬ ∀ env clock as s c call r, run (step env) (State.init clock) as = some s →
    s.calls[c]? = some call → call.point = .returned r → r ≠ .lost →
      Along (step env) (Uninterrupted c) (State.init clock) as := by
  intro honest
  have facts : (run (step ⟨true⟩) (State.init 0) deletedUnseen).map (fun s => (s.calls[0]?).map Call.point) =
      some (some (.returned (.done false))) := by decide
  obtain ⟨s,ok,point⟩ := Option.map_eq_some_iff.mp facts
  obtain ⟨call,found,ends⟩ := Option.map_eq_some_iff.mp point
  have held := honest ⟨true⟩ 0 deletedUnseen s 0 call (.done false) ok found ends Result.noConfusion
  have lost : ¬ Along (step ⟨true⟩) (Uninterrupted 0) (State.init 0) deletedUnseen := by decide
  exact lost held

end DevkitCommon.Redisx
