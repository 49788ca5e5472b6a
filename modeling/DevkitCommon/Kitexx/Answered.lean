import DevkitCommon.Kitexx.Replay
import Mathlib

/-! Where the responses under one key come from: of the calls that have it one has run the
handler to a response, and what any of them answers is that response or its kept copy. -/
namespace DevkitCommon.Kitexx
open Machine Redis
variable {ρ δ : Type}

section Given
variable (env : Env ρ δ) (s : State ρ δ)

inductive Next (r : Request) : Point ρ δ → Point ρ δ → Prop where
  | stays (p) : Next r p p
  | claims {key} (reply) (under : r.key env = some key) :
      Next r .setNX (claimed reply (Redis.get s.keys s.clock key).isSome)
  | replays {key} (reply) (under : r.key env = some key) :
      Next r .get (.returned (replay env r.method reply (Redis.get s.keys s.clock key)))
  | passes (o) : Next r .through (.returned (.passed o))
  | runs (o) : Next r .running (afterHandler env r.method o)
  | gives (o) : Next r (.del o) (.returned (.failed o))
  | keeps (v data) : Next r (.store v data) (.returned (.own v))
  | crashes {p} (going : ∀ answer, p ≠ .returned answer) : Next r p .crashed

def Executed (f : Fields) (i : Nat) (v : ρ) : Prop :=
  ∃ x, s.calls[i]? = some x ∧ Of env (f.key env.service) x ∧ x.outcome = some (.ok v)

structure Answered (f : Fields) : Prop where
  claimed : Claimed env (f.key env.service) s
  recorded : Recorded env s
  single : ∀ {i j v w}, Executed env s f i v → Executed env s f j w → i = j
  stored : ∀ {data}, (s.keys (f.key env.service)).map Entry.value = some (.result data) →
    ∃ i v, Executed env s f i v ∧ env.marshal f.method v = some data
  replayed : ∀ {j : Nat} {y : Call ρ δ} {w : ρ}, s.calls[j]? = some y → Of env (f.key env.service) y →
    y.point = .returned (.replayed w) →
    ∃ i v, Executed env s f i v ∧ (env.marshal f.method v).bind (env.setSuccess f.method) = some w
  through : ∀ y ∈ s.calls, y.point = .through ∨ (∃ o, y.point = .returned (.passed o)) → y.request.requestId = none

end Given

variable {env : Env ρ δ} {s t : State ρ δ} {a : Action ρ} {f f' : Fields} {i j c : Nat} {v w : ρ} {data : δ}
  {call call' x : Call ρ δ} {keys : Store String (Kept δ)} {answer : Answer ρ}

theorem callsMove (one : step env s a = some t) :
    t.calls = s.calls ∨ (∃ r, a = .call r ∧ t.calls = s.calls ++ [⟨r,false,first env r,none⟩]) ∨
      ∃ (c : Nat) (call call' : Call ρ δ), s.calls[c]? = some call ∧ t.calls = s.calls.set c call' ∧
        call'.request = call.request ∧ Next env s call.request call.point call'.point := by
  cases a <;> simp only [step,bind,Option.bind_eq_some_iff,Option.some.injEq] at one
  case tick d => subst one; exact .inl rfl
  case call r => subst one; exact .inr (.inl ⟨r,rfl,rfl⟩)
  case setNX c reply =>
    obtain ⟨call,found,key,under,last⟩ := one
    split at last <;> try contradiction
    rename_i here
    cases Option.some.inj last
    exact .inr (.inr ⟨c,call,_,found,rfl,rfl,by rw [here]; exact .claims reply under⟩)
  case get c reply =>
    obtain ⟨call,found,key,under,last⟩ := one
    split at last <;> try contradiction
    rename_i here
    cases Option.some.inj last
    exact .inr (.inr ⟨c,call,_,found,rfl,rfl,by rw [here]; exact .replays reply under⟩)
  case finish c o =>
    obtain ⟨call,found,last⟩ := one
    split at last <;> try contradiction
    all_goals
      rename_i here
      cases Option.some.inj last
    · exact .inr (.inr ⟨c,call,_,found,rfl,rfl,by rw [here]; exact .passes o⟩)
    · exact .inr (.inr ⟨c,call,_,found,rfl,rfl,by rw [here]; exact .runs o⟩)
  case del c reply =>
    obtain ⟨call,found,key,under,last⟩ := one
    split at last <;> try contradiction
    rename_i o here
    cases Option.some.inj last
    exact .inr (.inr ⟨c,call,_,found,rfl,rfl,by rw [here]; exact .gives o⟩)
  case store c reply =>
    obtain ⟨call,found,key,under,last⟩ := one
    split at last <;> try contradiction
    rename_i v data here
    cases Option.some.inj last
    exact .inr (.inr ⟨c,call,_,found,rfl,rfl,by rw [here]; exact .keeps v data⟩)
  case ctxEnds c =>
    obtain ⟨call,found,last⟩ := one
    cases last
    exact .inr (.inr ⟨c,call,_,found,rfl,rfl,.stays _⟩)
  case crash c =>
    obtain ⟨call,found,last⟩ := one
    split at last <;> try contradiction
    rename_i going _
    cases Option.some.inj last
    exact .inr (.inr ⟨c,call,_,found,rfl,rfl,.crashes going⟩)

theorem callStays (one : step env s a = some t) (found : s.calls[i]? = some x) :
    ∃ y, t.calls[i]? = some y ∧ y.request = x.request ∧ ∀ answer, x.point = .returned answer → y.point = x.point := by
  rcases callsMove one with same | ⟨r,-,added⟩ | ⟨c,call,call',here,moved,request,next⟩
  · exact ⟨x,by rw [same,found],rfl,fun _ _ => rfl⟩
  · exact ⟨x,by rw [added]; exact concatStays found,rfl,fun _ _ => rfl⟩
  · rcases setStays (i := c) (a := call') found with ⟨rfl,now⟩ | ⟨-,now⟩
    · cases Option.some.inj (here.symm.trans found)
      refine ⟨call',by rw [moved,now],request,fun answer returned => ?_⟩
      generalize call'.point = after at next ⊢
      rw [returned] at next ⊢
      cases next with
      | stays => rfl
      | crashes going => exact absurd rfl (going answer)
    · exact ⟨x,by rw [moved,now],rfl,fun _ _ => rfl⟩

theorem pointFrom (one : step env s a = some t) (now : t.calls[i]? = some x) :
    (∃ y, s.calls[i]? = some y ∧ y.request = x.request ∧ Next env s y.request y.point x.point) ∨
      x.point = first env x.request := by
  rcases callsMove one with same | ⟨r,-,added⟩ | ⟨c,call,call',here,moved,request,next⟩
  · exact .inl ⟨x,by rw [← same,now],rfl,.stays _⟩
  · rw [added] at now
    rcases concatFrom now with old | ⟨-,rfl⟩
    · exact .inl ⟨x,old,rfl,.stays _⟩
    · exact .inr rfl
  · rw [moved] at now
    rcases setFound now with ⟨rfl,rfl⟩ | ⟨-,old⟩
    · exact .inl ⟨call,here,request.symm,next⟩
    · exact .inl ⟨x,old,rfl,.stays _⟩

theorem firstGiven {r : Request} (point : (first env r : Point ρ δ) = .returned answer) :
    ∃ code message, answer = .refused code message := by
  unfold first at point
  split at point
  · contradiction
  · split at point
    · exact ⟨_,_,(Point.returned.inj point).symm⟩
    · split at point <;> try contradiction
      exact ⟨_,_,(Point.returned.inj point).symm⟩

theorem firstThrough {r : Request} (passed : (first env r : Point ρ δ) = .through ∨
    ∃ o, (first env r : Point ρ δ) = .returned (.passed o)) : r.requestId = none := by
  unfold first at passed
  split at passed
  · assumption
  · split at passed
    · simp at passed
    · split at passed <;> simp at passed

theorem replayFound {m : Method} {reply : Reply} {kept : Option (Kept δ)}
    (same : replay env m reply kept = .replayed w) :
    ∃ data, kept = some (.result data) ∧ env.setSuccess m data = some w := by
  unfold replay unavailable at same
  split at same <;> try contradiction
  split at same <;> try contradiction
  rename_i data
  split at same <;> try contradiction
  rename_i read
  cases Answer.replayed.inj same
  exact ⟨data,rfl,read⟩

theorem replayNotPassed {m : Method} {reply : Reply} {kept : Option (Kept δ)} {o : Outcome ρ} :
    replay env m reply kept ≠ .passed o := by
  intro same
  unfold replay unavailable at same
  split at same <;> try contradiction
  split at same <;> try contradiction
  split at same <;> contradiction

theorem nextReplayed {r : Request} {p q : Point ρ δ} (next : Next env s r p q) (same : q = .returned (.replayed w)) :
    p = q ∨ ∃ key data, r.key env = some key ∧ Redis.get s.keys s.clock key = some (.result data) ∧
      env.setSuccess r.method data = some w := by
  cases next with
  | stays => exact .inl rfl
  | claims reply =>
    unfold claimed unavailable at same
    split at same
    · cases Point.returned.inj same
    · split at same <;> cases same
  | @replays key reply under =>
    obtain ⟨data,there,read⟩ := replayFound (Point.returned.inj same)
    exact .inr ⟨key,data,under,there,read⟩
  | runs o =>
    unfold afterHandler at same
    split at same <;> try contradiction
    split at same <;> cases same
  | passes | gives | keeps => cases Point.returned.inj same
  | crashes => cases same

theorem nextPassed {r : Request} {p q : Point ρ δ} (next : Next env s r p q)
    (passed : q = .through ∨ ∃ o, q = .returned (.passed o)) : p = .through ∨ ∃ o, p = .returned (.passed o) := by
  cases next with
  | stays => exact passed
  | passes o => exact .inl rfl
  | claims reply =>
    unfold claimed unavailable at passed
    split at passed
    · simp at passed
    · split at passed <;> simp at passed
  | replays reply under =>
    rcases passed with bad | ⟨o,bad⟩
    · contradiction
    · exact absurd (Point.returned.inj bad) replayNotPassed
  | runs o =>
    unfold afterHandler at passed
    split at passed
    · simp at passed
    · simp at passed
    · split at passed <;> simp at passed
  | gives | keeps | crashes => simp at passed

theorem methodOf (under : Of env (f.key env.service) x) : x.request.method = f.method := by
  obtain ⟨id,-,one⟩ := Option.map_eq_some_iff.mp under
  exact (keySplit (a := ⟨x.request.method,id,x.request.login⟩).mp one).1

theorem executedStays (recorded : Recorded env s) (does : Does env s a t) (done : Executed env s f i v) :
    Executed env t f i v := by
  obtain ⟨x,found,under,ok⟩ := done
  cases does with
  | tick d => exact ⟨x,found,under,ok⟩
  | call r => exact ⟨x,concatStays found,under,ok⟩
  | @move _ c call call' keys here moves =>
    rcases setStays (i := c) (a := call') found with ⟨rfl,now⟩ | ⟨-,now⟩
    · cases Option.some.inj (here.symm.trans found)
      refine ⟨call',now,by rwa [Of,movesRequest moves],?_⟩
      cases moves with
      | runs running =>
        have before := recorded x (List.mem_of_getElem? found)
        rw [running,ok] at before
        cases before.1
      | claims _ _ _ same | gives _ _ _ same | keeps _ _ _ same | stays _ same | answers _ _ same | crashes _ same =>
        rw [same,ok]
    · exact ⟨x,now,under,ok⟩

theorem executedFrom (does : Does env s a t) (done : Executed env t f i v) :
    Executed env s f i v ∨ ∃ x, s.calls[i]? = some x ∧ Of env (f.key env.service) x ∧ x.point = .running := by
  obtain ⟨x,now,under,ok⟩ := done
  cases does with
  | tick d => exact .inl ⟨x,now,under,ok⟩
  | call r =>
    rcases newCall now with old | ⟨-,none'⟩
    · exact .inl ⟨x,old,under,ok⟩
    · rw [none'] at ok
      contradiction
  | move found moves =>
    rcases movedCall found now with ⟨rfl,rfl⟩ | ⟨-,old⟩
    · have under' := under
      rw [Of,movesRequest moves] at under'
      cases moves with
      | runs here => exact .inr ⟨_,found,under',here⟩
      | claims _ _ _ same | gives _ _ _ same | keeps _ _ _ same | stays _ same | answers _ _ same | crashes _ same =>
        exact .inl ⟨_,found,under',same.symm.trans ok⟩
    · exact .inl ⟨x,old,under,ok⟩

theorem resultFrom {k : String} (moves : Moves env s c call a call' keys)
    (there : (keys k).map Entry.value = some (.result data)) :
    (s.keys k).map Entry.value = some (.result data) ∨ ∃ v, Of env k call ∧ call.point = .store v data := by
  cases moves with
  | @claims key reply _ under here =>
    split at there
    · unfold setNX at there
      split at there
      · exact .inl there
      · by_cases same : k = key
        · subst same
          rw [Function.update_self] at there
          cases Option.some.inj there
        · rw [Function.update_of_ne same] at there
          exact .inl there
    · exact .inl there
  | @gives key reply o _ under here =>
    split at there
    · by_cases same : k = key
      · subst same
        rw [del,Function.update_self] at there
        contradiction
      · rw [delOther same] at there
        exact .inl there
    · exact .inl there
  | @keeps key reply v data' _ under here =>
    split at there
    · by_cases same : k = key
      · subst same
        rw [setSame] at there
        cases Kept.result.inj (Option.some.inj there)
        exact .inr ⟨v,under,here⟩
      · rw [setOther same] at there
        exact .inl there
    · exact .inl there
  | runs | stays | answers | crashes => exact .inl there

theorem answeredStep (inv : Answered env s f) (within : Within (f.key env.service) s a) (one : step env s a = some t) :
    Answered env t f := by
  have does := stepDoes one
  have stays {i : Nat} {v : ρ} (done : Executed env s f i v) : Executed env t f i v :=
    executedStays inv.recorded does done
  have before {data : δ} (there : (s.keys (f.key env.service)).map Entry.value = some (.result data)) :
      ∃ i v, Executed env t f i v ∧ env.marshal f.method v = some data := by
    obtain ⟨i,v,done,written⟩ := inv.stored there
    exact ⟨i,v,stays done,written⟩
  refine ⟨claimedStep inv.claimed within does,recordedStep inv.recorded does,?_,?_,?_,?_⟩
  · intro i j v w left right
    have alone {i j : Nat} {x : Call ρ δ} {w : ρ} (found : s.calls[i]? = some x) (under : Of env (f.key env.service) x)
        (here : x.point = .running) (done : Executed env s f j w) : False := by
      obtain ⟨y,found',under',ok⟩ := done
      exact claimedNone inv.claimed ⟨j,y,w,found',under',ok⟩ i x found under here
    rcases executedFrom does left with old | ⟨x,found,under,here⟩ <;>
      rcases executedFrom does right with old' | ⟨y,found',under',here'⟩
    · exact inv.single old old'
    · exact (alone found' under' here' old).elim
    · exact (alone found under here old').elim
    · exact claimedOne inv.claimed i j x y found found' under under' here here'
  · intro data there
    cases does with
    | tick d => exact before there
    | call r => exact before there
    | @move _ c call call' keys found moves =>
      rcases resultFrom moves there with old | ⟨v,under,here⟩
      · exact before old
      · have kept := inv.recorded call (List.mem_of_getElem? found)
        rw [here] at kept
        refine ⟨c,v,stays ⟨call,found,under,kept.1⟩,?_⟩
        rw [← methodOf under]
        exact kept.2.1
  · intro j y w now under point
    rcases pointFrom one now with ⟨x,found,request,next⟩ | fresh
    · have under' : Of env (f.key env.service) x := by rwa [Of,request]
      rcases nextReplayed next point with old | ⟨key,data,its,there,read⟩
      · obtain ⟨i,v,done,same⟩ := inv.replayed found under' (old.trans point)
        exact ⟨i,v,stays done,same⟩
      · cases Option.some.inj (its.symm.trans under')
        obtain ⟨e,raw,-,value⟩ := getExact.mp there
        obtain ⟨i,v,done,written⟩ := inv.stored (by rw [raw,Option.map_some,value])
        exact ⟨i,v,stays done,by rwa [written,← methodOf under']⟩
    · obtain ⟨code,message,same⟩ := firstGiven (fresh.symm.trans point)
      contradiction
  · intro y mem passed
    obtain ⟨i,now⟩ := List.mem_iff_getElem?.mp mem
    rcases pointFrom one now with ⟨x,found,request,next⟩ | fresh
    · rw [← request]
      exact inv.through x (List.mem_of_getElem? found) (nextPassed next passed)
    · rw [fresh] at passed
      exact firstThrough passed

def remembered : Int := idempotencyTTL/millisecond

structure Young (clock : Int) (s : State ρ δ) : Prop where
  since : clock ≤ s.clock
  live : ∀ {k : String} {e : Entry (Kept δ)}, s.keys k = some e → ∀ now < clock+remembered, e.live now = true

theorem keptLive {clock now : Int} {old : Option Int} (since : clock ≤ now) (k : Kept δ) :
    ∀ later < clock+remembered, Entry.live later (⟨k,setLapse now idempotencyTTL old⟩ : Entry (Kept δ)) = true := by
  intro later soon
  have lapse : setLapse now idempotencyTTL old = some (now+remembered) := by
    unfold setLapse
    rw [if_pos (by decide)]
    rfl
  rw [Entry.live,lapse,Option.all_some,decide_eq_true_eq]
  omega

theorem movesYoung {clock : Int} (inv : Young clock s) (moves : Moves env s c call a call' keys)
    {k : String} {e : Entry (Kept δ)} (there : keys k = some e) : ∀ now < clock+remembered, e.live now = true := by
  cases moves with
  | @claims key reply _ under here =>
    split at there
    · unfold setNX at there
      split at there
      · exact inv.live there
      · by_cases same : k = key
        · subst same
          rw [Function.update_self] at there
          cases Option.some.inj there
          exact keptLive inv.since _
        · rw [Function.update_of_ne same] at there
          exact inv.live there
    · exact inv.live there
  | @gives key reply o _ under here =>
    split at there
    · by_cases same : k = key
      · subst same
        rw [del,Function.update_self] at there
        contradiction
      · rw [delOther same] at there
        exact inv.live there
    · exact inv.live there
  | @keeps key reply v data _ under here =>
    split at there
    · by_cases same : k = key
      · subst same
        rw [Redis.set,Function.update_self] at there
        cases Option.some.inj there
        exact keptLive inv.since _
      · rw [setOther same] at there
        exact inv.live there
    · exact inv.live there
  | runs | stays | answers | crashes => exact inv.live there

theorem youngStep {clock : Int} (inv : Young clock s) (does : Does env s a t) : Young clock t := by
  cases does with
  | tick d => exact ⟨by have := inv.since; simp only; omega,inv.live⟩
  | call r => exact ⟨inv.since,inv.live⟩
  | move found moves => exact ⟨inv.since,fun there => movesYoung inv moves there⟩

theorem clockGrows (does : Does env s a t) : s.clock ≤ t.clock := by
  cases does with
  | tick d => simp only; omega
  | call | move => exact Int.le_refl _

theorem youngWithin {clock : Int} (inv : Young clock s) (soon : s.clock < clock+remembered) (k : String) :
    Within k s a := by
  unfold Within
  cases raw : s.keys k with
  | none => rfl
  | some e => exact inv.live raw _ soon

end DevkitCommon.Kitexx
