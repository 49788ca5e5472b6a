import DevkitCommon.Kitexx.Release
import DevkitCommon.Kitexx.Key
import DevkitCommon.Kitexx.RoundTrip

/-! What a repeated call gets. While the key is there it says what the call that ran the
handler has left: its result's JSON, or still its claim when there is none. The answer from
it is the first one again exactly for the responses that survive their round trip. -/
namespace DevkitCommon.Kitexx
open Machine Redis
variable {ρ δ : Type}

section Leaves
variable (env : Env ρ δ) (k : String)

def left (c : Nat) (m : Method) (v : ρ) : Kept δ :=
  match env.marshal m v with
  | some data => .result data
  | none => .pending c

def Keeps (_ : State ρ δ) : Action ρ → Prop
  | .store _ reply => reply.ran = true
  | _ => True
instance (s : State ρ δ) (a : Action ρ) : Decidable (Keeps s a) := by unfold Keeps; split <;> infer_instance

structure Leaves (s : State ρ δ) : Prop where
  claimed : Claimed env k s
  recorded : Recorded env s
  own : ∀ (i : Nat) (x : Call ρ δ) (v : ρ), s.calls[i]? = some x → Of env k x → x.point = .returned (.own v) →
    (s.keys k).map Entry.value = some (left env i x.request.method v)

end Leaves

variable {env : Env ρ δ} {k : String} {s t : State ρ δ} {a : Action ρ} {reply : Reply} {c i : Nat} {v : ρ}
  {call call' x : Call ρ δ} {keys : Store String (Kept δ)}

theorem leftForeign {m : Method} (other : i ≠ c) : left env i m v ≠ .pending c := by
  unfold left
  split
  · exact nofun
  · exact fun same => other (Kept.pending.inj same)

theorem leavesOwn (inv : Leaves env k s) (keeps : Keeps s a) (found : s.calls[c]? = some call)
    (moves : Moves env s c call a call' keys) (under' : Of env k call')
    (point' : call'.point = .returned (.own v)) :
    (keys k).map Entry.value = some (left env c call'.request.method v) := by
  have under : Of env k call := by rwa [Of,← movesRequest moves]
  have here' := inv.recorded call (List.mem_of_getElem? found)
  cases moves with
  | claims _ here same outcome point =>
    rw [point,claimed] at point'
    split at point'
    · cases point'
    · split at point' <;> cases point'
  | runs here same outcome point =>
    rename_i o
    rw [point] at point'
    cases o with
    | error => contradiction
    | biz => contradiction
    | ok r =>
      simp only [afterHandler] at point'
      split at point' <;> try contradiction
      rename_i none'
      cases Answer.own.inj (Point.returned.inj point')
      rw [same,left,none']
      exact inv.claimed.own c call found under (by rw [here]; rfl)
  | gives _ here same outcome point => rw [point] at point'; cases point'
  | @keeps key reply r data _ key' here same outcome point =>
    rw [point] at point'
    cases Answer.own.inj (Point.returned.inj point')
    cases Option.some.inj (key'.symm.trans under)
    rw [here] at here'
    rw [if_pos (show reply.ran = true from keeps),setSame,same,left,here'.2.1]
    rfl
  | stays same outcome point =>
    rw [same]
    exact inv.own c call v found under (point ▸ point')
  | answers here same outcome point foreign =>
    rw [point] at point'
    exact absurd (Point.returned.inj point') (foreign v)
  | crashes same outcome point => rw [point] at point'; contradiction

theorem leavesStep (inv : Leaves env k s) (both : Within k s a ∧ Keeps s a) (does : Does env s a t) :
    Leaves env k t := by
  have recorded := recordedStep inv.recorded does
  refine ⟨claimedStep inv.claimed both.1 does,recorded,?_⟩
  intro i x v now under point
  cases does with
  | tick d => exact inv.own i x v now under point
  | call r =>
    rcases newCall now with before | ⟨-,fresh⟩
    · exact inv.own i x v before under point
    · have ended := recorded x (List.mem_of_getElem? now)
      rw [point,fresh] at ended
      contradiction
  | move found moves =>
    rcases movedCall found now with ⟨rfl,rfl⟩ | ⟨other,before⟩
    · exact leavesOwn inv both.2 found moves under point
    · have there := inv.own i x v before under point
      have same := othersKeep inv.claimed both.1 found moves there (leftForeign other)
      exact (congrArg (Option.map Entry.value) same).trans there

theorem leavesInit (clock : Int) : Leaves env k (State.init clock) :=
  ⟨claimedInit clock,fun _ mem => absurd mem List.not_mem_nil,fun _ _ _ none => (nomatch none)⟩

theorem replayExact {m : Method} : replay env m .ok (some (left env i m v)) = .replayed v ↔
    (env.marshal m v).bind (env.setSuccess m) = some v := by
  unfold left
  cases written : env.marshal m v with
  | none => simp [replay]
  | some data =>
    cases read : env.setSuccess m data with
    | none => simp [replay,read,unavailable]
    | some r => simp [replay,read]

theorem getAnswers (one : step env s (.get c reply) = some t) (found : s.calls[c]? = some call)
    (under : Of env k call) : ∃ call', t.calls[c]? = some call' ∧
      call'.point = .returned (replay env call.request.method reply (Redis.get s.keys s.clock k)) := by
  simp only [step,bind,Option.bind_eq_some_iff] at one
  obtain ⟨call',found',key,under',last⟩ := one
  cases Option.some.inj (found'.symm.trans found)
  cases Option.some.inj (under'.symm.trans under)
  split at last <;> try contradiction
  cases Option.some.inj last
  have short := (List.getElem?_eq_some_iff.mp found).1
  exact ⟨_,List.getElem?_set_self short,rfl⟩

theorem sameMethod {y : Call ρ δ} (left : Of env k x) (right : Of env k y) :
    x.request.method = y.request.method := by
  obtain ⟨id,-,one⟩ := Option.map_eq_some_iff.mp left
  obtain ⟨id',-,two⟩ := Option.map_eq_some_iff.mp right
  have same : Fields.key env.service ⟨x.request.method,id,x.request.login⟩ =
      Fields.key env.service ⟨y.request.method,id',y.request.login⟩ := one.trans two.symm
  exact (keySplit.mp same).1

theorem repeatedSame (idl : Idl) (service k : String) (clock : Int) (as : List (Action Value))
    (s t : State Value Json) (i c : Nat) (x y : Call Value Json) (v : Value)
    (kept : Along (step (idl.env service)) (fun s a => Within k s a ∧ Keeps s a) (State.init clock)
      (as ++ [.get c .ok]))
    (ok : run (step (idl.env service)) (State.init clock) as = some s)
    (first : s.calls[i]? = some x) (ofX : Of (idl.env service) k x) (own : x.point = .returned (.own v))
    (fits : Fits idl x.request.method v) (again : s.calls[c]? = some y) (ofY : Of (idl.env service) k y)
    (one : step (idl.env service) s (.get c .ok) = some t) :
    (t.calls[c]?).map Call.point = some (.returned (.replayed v)) ↔
      faithful idl x.request.method v = true := by
  obtain ⟨along,last⟩ := alongAppend ok kept
  obtain ⟨⟨within,-⟩,-⟩ := (alongCons one).mp last
  have inv := runKeeps (fun inv both one => leavesStep inv both (stepDoes one)) (leavesInit clock) along ok
  obtain ⟨y',now,answers⟩ := getAnswers one again ofY
  have there : Redis.get s.keys s.clock k = some (left (idl.env service) i y.request.method v) := by
    rw [getValue within,inv.own i x v first ofX own,sameMethod ofX ofY]
  rw [now,Option.map_some,answers,there,Option.some.injEq,Point.returned.injEq,replayExact,
    ← sameMethod ofX ofY]
  exact successTrips fits

def bank (success : GoType) : Idl where
  structs _ := ⟨[⟨"tx_id",false,.scalar .string⟩,⟨"notes",true,.slice (.scalar .string)⟩],by decide⟩
  success _ := some success

def answered (v : Value) : List (Action Value) :=
  [.call pay,.setNX 0 .ok,.finish 0 (.ok v),.store 0 .ok,.call pay,.setNX 1 .ok]

def receipt : Value := .struct (.cons (.string "tx-1".toUTF8) (.cons .nil .nil))

theorem receiptReplayed : ∃ s t, run (step ((bank (.struct "TransferResp")).env "wallet")) (State.init 0)
      (answered receipt) = some s ∧
    step ((bank (.struct "TransferResp")).env "wallet") s (.get 1 .ok) = some t ∧
    (t.calls[1]?).map Call.point = some (.returned (.replayed receipt)) := by
  have facts : (run (step ((bank (.struct "TransferResp")).env "wallet")) (State.init 0)
      (answered receipt)).map (fun s => (s.calls[0]?,s.calls[1]?,
        (step ((bank (.struct "TransferResp")).env "wallet") s (.get 1 .ok)).isSome)) =
      some (some ⟨pay,false,.returned (.own receipt),some (.ok receipt)⟩,
        some ⟨pay,false,.get,none⟩,true) := by decide
  obtain ⟨s,ok,both⟩ := Option.map_eq_some_iff.mp facts
  obtain ⟨first,more⟩ := Prod.mk.inj both
  obtain ⟨again,steps⟩ := Prod.mk.inj more
  obtain ⟨t,one⟩ := Option.isSome_iff_exists.mp steps
  have fits : Fits (bank (.struct "TransferResp")) pay.method receipt :=
    .struct (.cons (.scalar (.string _)) (.cons .noSlice .nil))
  exact ⟨s,t,ok,one,(repeatedSame (bank (.struct "TransferResp")) "wallet" payKey 0 (answered receipt) s t 0 1
    _ _ receipt (by decide) ok first rfl rfl fits again rfl one).mpr (by decide)⟩

theorem listRefused : ¬ ∀ (idl : Idl) (service k : String) (clock : Int) (as : List (Action Value))
    (s t : State Value Json) (i c : Nat) (x y : Call Value Json) (v : Value),
    Along (step (idl.env service)) (fun s a => Within k s a ∧ Keeps s a) (State.init clock)
      (as ++ [.get c .ok]) →
    run (step (idl.env service)) (State.init clock) as = some s → s.calls[i]? = some x →
    Of (idl.env service) k x → x.point = .returned (.own v) → Fits idl x.request.method v →
    s.calls[c]? = some y → Of (idl.env service) k y → step (idl.env service) s (.get c .ok) = some t →
    (t.calls[c]?).map Call.point = some (.returned (.replayed v)) := by
  intro same
  have facts : (run (step ((bank (.slice (.scalar .bool))).env "wallet")) (State.init 0)
      (answered (.slice .nil))).map (fun s => (s.calls[0]?,s.calls[1]?,
        (step ((bank (.slice (.scalar .bool))).env "wallet") s (.get 1 .ok)).map
          (fun t => (t.calls[1]?).map Call.point))) =
      some (some ⟨pay,false,.returned (.own (.slice .nil)),some (.ok (.slice .nil))⟩,
        some ⟨pay,false,.get,none⟩,
        some (some (.returned (.refused 5002 "idempotency store unavailable")))) := by decide
  obtain ⟨s,ok,both⟩ := Option.map_eq_some_iff.mp facts
  obtain ⟨first,more⟩ := Prod.mk.inj both
  obtain ⟨again,steps⟩ := Prod.mk.inj more
  obtain ⟨t,one,refused⟩ := Option.map_eq_some_iff.mp steps
  have replayed := same (bank (.slice (.scalar .bool))) "wallet" payKey 0 (answered (.slice .nil)) s t 0 1
    _ _ (.slice .nil) (by decide) ok first rfl rfl (.slice .nil) again rfl one
  rw [refused] at replayed
  exact nomatch replayed

end DevkitCommon.Kitexx
