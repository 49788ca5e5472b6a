import DevkitCommon.Kitexx.Idempotency
import Mathlib.Data.List.Basic

/-! Who holds the claim of an idempotency key, where each command is sent once. It stands
in the key's value: a call between its claim and its release finds its own number there,
and the kept result of a run that succeeded, or its claim, stays there. -/
namespace DevkitCommon.Kitexx
open Machine Redis
variable {ρ δ : Type}

def Point.holds : Point ρ δ → Bool
  | .running | .del _ | .store _ _ => true
  | _ => false

def Point.after : Point ρ δ → Bool
  | .store _ _ | .returned _ | .crashed => true
  | _ => false

section Claims
variable (env : Env ρ δ) (k : String)

def Of (call : Call ρ δ) : Prop := call.request.key env = some k

def Within (s : State ρ δ) (_ : Action ρ) : Prop := (s.keys k).all (Entry.live s.clock) = true
instance (s : State ρ δ) (a : Action ρ) : Decidable (Within k s a) := by unfold Within; infer_instance

def AtMostOne (s : State ρ δ) : Prop :=
  ∀ (i j : Nat) (x y : Call ρ δ), s.calls[i]? = some x → s.calls[j]? = some y → Of env k x → Of env k y →
    x.point = .running → y.point = .running → i = j

def Succeeded (s : State ρ δ) : Prop :=
  ∃ (i : Nat) (x : Call ρ δ) (r : ρ), s.calls[i]? = some x ∧ Of env k x ∧ x.outcome = some (.ok r)

def NoneRunning (s : State ρ δ) : Prop :=
  ∀ (j : Nat) (y : Call ρ δ), s.calls[j]? = some y → Of env k y → y.point ≠ .running

structure Claimed (s : State ρ δ) : Prop where
  own : ∀ (i : Nat) (x : Call ρ δ), s.calls[i]? = some x → Of env k x → x.point.holds = true →
    (s.keys k).map Entry.value = some (.pending i)
  settled : ∀ (i : Nat) (x : Call ρ δ) (r : ρ), s.calls[i]? = some x → x.outcome = some (.ok r) →
    x.point.after = true
  kept : ∀ (i : Nat) (x : Call ρ δ) (r : ρ), s.calls[i]? = some x → Of env k x →
    x.outcome = some (.ok r) → (s.keys k).map Entry.value = some (.pending i) ∨
      ∃ data, (s.keys k).map Entry.value = some (.result data)

end Claims

section Moves
variable (env : Env ρ δ) (s : State ρ δ)

inductive Moves (c : Nat) (call : Call ρ δ) : Action ρ → Call ρ δ → Store String (Kept δ) → Prop where
  | claims {key reply call'} (under : call.request.key env = some key) (here : call.point = .setNX)
      (same : call'.request = call.request) (outcome : call'.outcome = call.outcome)
      (point : call'.point = claimed reply (Redis.get s.keys s.clock key).isSome) :
      Moves c call (.setNX c reply) call'
        (if reply.ran then setNX s.keys s.clock key (.pending c) idempotencyTTL else s.keys)
  | runs {o call'} (here : call.point = .running) (same : call'.request = call.request)
      (outcome : call'.outcome = some o) (point : call'.point = afterHandler env call.request.method o) :
      Moves c call (.finish c o) call' s.keys
  | gives {key reply o call'} (under : call.request.key env = some key) (here : call.point = .del o)
      (same : call'.request = call.request) (outcome : call'.outcome = call.outcome)
      (point : call'.point = .returned (.failed o)) :
      Moves c call (.del c reply) call' (if reply.ran then del s.keys key else s.keys)
  | keeps {key reply r data call'} (under : call.request.key env = some key) (here : call.point = .store r data)
      (same : call'.request = call.request) (outcome : call'.outcome = call.outcome)
      (point : call'.point = .returned (.own r)) :
      Moves c call (.store c reply) call'
        (if reply.ran then set s.keys s.clock key (.result data) idempotencyTTL else s.keys)
  | stays {a call'} (same : call'.request = call.request) (outcome : call'.outcome = call.outcome)
      (point : call'.point = call.point) : Moves c call a call' s.keys
  | answers {a answer call'} (here : call.point = .get ∨ call.point = .through)
      (same : call'.request = call.request) (outcome : call'.outcome = call.outcome)
      (point : call'.point = .returned answer) (foreign : ∀ r, answer ≠ .own r) : Moves c call a call' s.keys
  | crashes {a call'} (same : call'.request = call.request) (outcome : call'.outcome = call.outcome)
      (point : call'.point = .crashed) : Moves c call a call' s.keys

inductive Does : Action ρ → State ρ δ → Prop where
  | tick (d : Nat) : Does (.tick d) {s with clock := s.clock + d}
  | call (r : Request) : Does (.call r) {s with calls := s.calls ++ [⟨r,false,first env r,none⟩]}
  | move {a c call call' keys} (found : s.calls[c]? = some call) (moves : Moves env s c call a call' keys) :
      Does a ({s with keys := keys}.setCall c call')

end Moves

variable {env : Env ρ δ} {k key : String} {s t : State ρ δ} {a : Action ρ} {reply : Reply} {c i : Nat}
  {call call' x : Call ρ δ} {keys : Store String (Kept δ)}

theorem replayForeign {method : Method} {kept : Option (Kept δ)} (r : ρ) :
    replay env method reply kept ≠ .own r := by
  unfold replay unavailable
  split
  · exact nofun
  · split
    · exact nofun
    · exact nofun
    · split <;> exact nofun

theorem stepDoes (one : step env s a = some t) : Does env s a t := by
  cases a <;> simp only [step,bind,Option.bind_eq_some_iff,Option.some.injEq] at one
  case tick d => subst one; exact .tick d
  case call r => subst one; exact .call r
  case setNX c reply =>
    obtain ⟨call,found,key,under,last⟩ := one
    split at last <;> try contradiction
    rename_i here
    cases Option.some.inj last
    exact .move found (.claims under here rfl rfl rfl)
  case get c reply =>
    obtain ⟨call,found,key,under,last⟩ := one
    split at last <;> try contradiction
    rename_i here
    cases Option.some.inj last
    exact .move found (.answers (.inl here) rfl rfl rfl (fun r => replayForeign r))
  case finish c o =>
    obtain ⟨call,found,last⟩ := one
    split at last <;> try contradiction
    all_goals
      rename_i here
      cases Option.some.inj last
    · exact .move found (.answers (.inr here) rfl rfl rfl (fun _ same => by cases same))
    · exact .move found (.runs here rfl rfl rfl)
  case del c reply =>
    obtain ⟨call,found,key,under,last⟩ := one
    split at last <;> try contradiction
    rename_i o here
    cases Option.some.inj last
    exact .move found (.gives under here rfl rfl rfl)
  case store c reply =>
    obtain ⟨call,found,key,under,last⟩ := one
    split at last <;> try contradiction
    rename_i r data here
    cases Option.some.inj last
    exact .move found (.keeps under here rfl rfl rfl)
  case ctxEnds c =>
    obtain ⟨call,found,last⟩ := one
    cases last
    exact .move found (.stays rfl rfl rfl)
  case crash c =>
    obtain ⟨call,found,last⟩ := one
    split at last <;> try contradiction
    cases Option.some.inj last
    exact .move found (.crashes rfl rfl rfl)

theorem movesRequest (moves : Moves env s c call a call' keys) : call'.request = call.request := by
  cases moves <;> assumption

theorem setNXFree {now : Int} {v : Kept δ} (free : Redis.get keys now k = none) :
    (setNX keys now k v idempotencyTTL k).map Entry.value = some v := by
  rw [setNXMade (by decide) free,Function.update_self]
  rfl

theorem withinLive {e : Entry (Kept δ)} (within : Within k s a) (raw : s.keys k = some e) :
    e.live s.clock = true := by
  simpa only [Within,raw,Option.all_some] using within

theorem getValue (within : Within k s a) : Redis.get s.keys s.clock k = (s.keys k).map Entry.value := by
  unfold Redis.get lookup
  cases raw : s.keys k with
  | none => rfl
  | some e => simp only [Option.filter_some,withinLive within raw,if_true]

theorem othersKeep (inv : Claimed env k s) (within : Within k s a) (found : s.calls[c]? = some call)
    (moves : Moves env s c call a call' keys) {v : Kept δ}
    (taken : (s.keys k).map Entry.value = some v) (foreign : v ≠ .pending c) : keys k = s.keys k := by
  have idle : Of env k call → call.point.holds = true → False := fun under holds =>
    foreign (Option.some.inj (taken.symm.trans (inv.own c call found under holds)))
  cases moves with
  | @claims key _ _ under =>
    by_cases same : k = key
    · subst same
      obtain ⟨e,raw,-⟩ := Option.map_eq_some_iff.mp taken
      split
      · rw [setNXTaken raw (withinLive within raw)]
      · rfl
    · split
      · exact setNXOther same
      · rfl
  | runs => rfl
  | @gives key _ _ _ under here =>
    by_cases same : k = key
    · subst same
      exact (idle under (by rw [here]; rfl)).elim
    · split
      · exact delOther same
      · rfl
  | @keeps key _ _ _ _ under here =>
    by_cases same : k = key
    · subst same
      exact (idle under (by rw [here]; rfl)).elim
    · split
      · exact setOther same
      · rfl
  | stays | answers | crashes => rfl

theorem claimedHolds {taken : Bool} (holds : (claimed reply taken : Point ρ δ).holds = true) :
    reply = .ok ∧ taken = false := by
  unfold claimed at holds
  split at holds <;> try contradiction
  split at holds <;> try contradiction
  rename_i ok free
  simp only [ne_eq,Decidable.not_not] at ok
  exact ⟨ok,by simpa using free⟩

theorem ownKeeps (inv : Claimed env k s) (found : s.calls[c]? = some call)
    (moves : Moves env s c call a call' keys) (under' : Of env k call') (holds : call'.point.holds = true) :
    (keys k).map Entry.value = some (.pending c) := by
  have under : Of env k call := by rwa [Of,← movesRequest moves]
  cases moves with
  | claims key here _ _ point =>
    obtain ⟨rfl,free⟩ := claimedHolds (point ▸ holds)
    cases Option.some.inj (key.symm.trans under)
    rw [if_pos (show Reply.ok.ran = true from rfl)]
    exact setNXFree (by simpa using free)
  | runs here => exact inv.own c call found under (by rw [here]; rfl)
  | gives key here _ _ point => rw [point] at holds; contradiction
  | keeps key here _ _ point => rw [point] at holds; contradiction
  | stays _ _ point => exact inv.own c call found under (point ▸ holds)
  | answers here _ _ point => rw [point] at holds; contradiction
  | crashes _ _ point => rw [point] at holds; contradiction

theorem settledStep (inv : Claimed env k s) (found : s.calls[c]? = some call)
    (moves : Moves env s c call a call' keys) {r : ρ} (ok : call'.outcome = some (.ok r)) :
    call'.point.after = true := by
  cases moves with
  | claims key here same outcome =>
    have early := inv.settled c call r found (outcome ▸ ok)
    rw [here] at early
    contradiction
  | runs here same outcome point =>
    cases Option.some.inj (outcome.symm.trans ok)
    rw [point,afterHandler]
    split <;> rfl
  | gives key here same outcome point => rw [point]; rfl
  | keeps key here same outcome point => rw [point]; rfl
  | stays same outcome point => rw [point]; exact inv.settled c call r found (outcome ▸ ok)
  | answers here same outcome point => rw [point]; rfl
  | crashes same outcome point => rw [point]; rfl

theorem keptStep (inv : Claimed env k s) (found : s.calls[c]? = some call)
    (moves : Moves env s c call a call' keys) (under' : Of env k call') {r : ρ}
    (ok : call'.outcome = some (.ok r)) :
    (keys k).map Entry.value = some (.pending c) ∨ ∃ data, (keys k).map Entry.value = some (.result data) := by
  have under : Of env k call := by rwa [Of,← movesRequest moves]
  cases moves with
  | claims key here same outcome =>
    have early := inv.settled c call r found (outcome ▸ ok)
    rw [here] at early
    contradiction
  | runs here => exact .inl (inv.own c call found under (by rw [here]; rfl))
  | gives key here same outcome point =>
    have early := inv.settled c call r found (outcome ▸ ok)
    rw [here] at early
    contradiction
  | @keeps _ _ _ data _ key here same outcome point =>
    cases Option.some.inj (key.symm.trans under)
    split
    · exact .inr ⟨data,by rw [setSame]; rfl⟩
    · exact inv.kept c call r found under (outcome ▸ ok)
  | stays same outcome => exact inv.kept c call r found under (outcome ▸ ok)
  | answers here same outcome => exact inv.kept c call r found under (outcome ▸ ok)
  | crashes same outcome => exact inv.kept c call r found under (outcome ▸ ok)

theorem movedCall (found : s.calls[c]? = some call)
    (now : ({s with keys := keys}.setCall c call').calls[i]? = some x) :
    i = c ∧ x = call' ∨ i ≠ c ∧ s.calls[i]? = some x := by
  have short := (List.getElem?_eq_some_iff.mp found).1
  by_cases same : c = i
  · subst same
    simp only [State.setCall,List.getElem?_set_self short,Option.some.injEq] at now
    exact .inl ⟨rfl,now.symm⟩
  · simp only [State.setCall,List.getElem?_set_ne same] at now
    exact .inr ⟨Ne.symm same,now⟩

theorem newCall {r : Request} (now : (s.calls ++ [⟨r,false,first env r,none⟩])[i]? = some x) :
    s.calls[i]? = some x ∨ x.point.holds = false ∧ x.outcome = none := by
  rw [List.getElem?_append] at now
  split at now
  · exact .inl now
  · cases List.mem_singleton.mp (List.mem_of_getElem? now)
    refine .inr ⟨?_,rfl⟩
    simp only [first]
    split
    · rfl
    · split
      · rfl
      · split <;> rfl

theorem claimedStep (inv : Claimed env k s) (within : Within k s a) (does : Does env s a t) :
    Claimed env k t := by
  cases does with
  | tick d => exact ⟨inv.own,inv.settled,inv.kept⟩
  | call r =>
    constructor
    · intro i x now under holds
      rcases newCall now with before | ⟨idle,-⟩
      · exact inv.own i x before under holds
      · rw [idle] at holds; contradiction
    · intro i x r now ok
      rcases newCall now with before | ⟨-,fresh⟩
      · exact inv.settled i x r before ok
      · rw [fresh] at ok; contradiction
    · intro i x r now under ok
      rcases newCall now with before | ⟨-,fresh⟩
      · exact inv.kept i x r before under ok
      · rw [fresh] at ok; contradiction
  | @move _ c call call' keys found moves =>
    constructor
    · intro i x now under holds
      rcases movedCall found now with ⟨rfl,rfl⟩ | ⟨other,before⟩
      · exact ownKeeps inv found moves under holds
      · have own := inv.own i x before under holds
        have differs : Kept.pending i ≠ (.pending c : Kept δ) := fun h => other (Kept.pending.inj h)
        exact (congrArg (Option.map Entry.value) (othersKeep inv within found moves own differs)).trans own
    · intro i x r now ok
      rcases movedCall found now with ⟨rfl,rfl⟩ | ⟨-,before⟩
      · exact settledStep inv found moves ok
      · exact inv.settled i x r before ok
    · intro i x r now under ok
      rcases movedCall found now with ⟨rfl,rfl⟩ | ⟨other,before⟩
      · exact keptStep inv found moves under ok
      · rcases inv.kept i x r before under ok with claim | ⟨data,result⟩
        · have differs : Kept.pending i ≠ (.pending c : Kept δ) := fun h => other (Kept.pending.inj h)
          have same := othersKeep inv within found moves claim differs
          exact .inl ((congrArg (Option.map Entry.value) same).trans claim)
        · have differs : Kept.result data ≠ (.pending c : Kept δ) := fun h => nomatch h
          have same := othersKeep inv within found moves result differs
          exact .inr ⟨data,(congrArg (Option.map Entry.value) same).trans result⟩

theorem claimedInit (clock : Int) : Claimed env k (State.init clock) :=
  ⟨fun _ _ none => (nomatch none),fun _ _ _ none => (nomatch none),fun _ _ _ none => (nomatch none)⟩

theorem claimedOne (inv : Claimed env k s) : AtMostOne env k s := by
  intro i j x y hx hy ofX ofY runX runY
  have one := inv.own i x hx ofX (by rw [runX]; rfl)
  rw [inv.own j y hy ofY (by rw [runY]; rfl)] at one
  exact (Kept.pending.inj (Option.some.inj one)).symm

theorem claimedNone (inv : Claimed env k s) (done : Succeeded env k s) : NoneRunning env k s := by
  obtain ⟨i,x,r,hx,ofX,ok⟩ := done
  intro j y hy ofY runY
  have claim := inv.own j y hy ofY (by rw [runY]; rfl)
  rcases inv.kept i x r hx ofX ok with mine | ⟨data,result⟩
  · cases Kept.pending.inj (Option.some.inj (claim.symm.trans mine))
    cases Option.some.inj (hx.symm.trans hy)
    have after := inv.settled i x r hx ok
    rw [runY] at after
    contradiction
  · exact nomatch Option.some.inj (claim.symm.trans result)

def transfer : Method := ⟨"Transfer",by decide⟩
def pay : Request := ⟨transfer,some "r1",some ⟨7,by decide⟩⟩
def payKey : String := idempotencyKey "wallet" transfer "r1" (some ⟨7,by decide⟩)

def wallet : Env Nat Nat := ⟨"wallet",true,fun _ r => some r,fun _ data => some data⟩

end DevkitCommon.Kitexx
