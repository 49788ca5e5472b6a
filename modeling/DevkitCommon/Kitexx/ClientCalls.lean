import DevkitCommon.Lib.Machine
import DevkitCommon.Lib.Text
import Mathlib.Logic.Function.Basic

/-! The calls with a request_id that are made inside one request: ClientRequestID claims the
id for its target before a call is sent and gives it back when next says it was not done.
Any number of calls at once; the claim and the give-back each stand under the mutex of the
scope. What next does stands in the action. -/
namespace DevkitCommon.Kitexx.RequestID
open Machine Text

inductive Refusal where
  | none
  | notDerived
  | twice
  deriving DecidableEq, Repr

def Refusal.text (scope target : String) : Refusal → String
  | .none => "kitexx: " ++ target ++ " takes a request_id and the call has none: pass the request_id of the request being " ++
      "handled (req.RequestId, kitexx.RequestID(ctx)), or kitexx.SubRequestID(ctx, part) when one request makes several such calls"
  | .notDerived => "kitexx: " ++ target ++ " got a request_id that is not derived from the request being handled (" ++ scope ++
      "): a retry of this request would run the call again; pass kitexx.RequestID(ctx), or kitexx.SubRequestID(ctx, part)"
  | .twice => "kitexx: " ++ target ++ " is called a second time with the same request_id in one request: the service would " ++
      "return the first call's result and do nothing; give each call its own id with kitexx.SubRequestID(ctx, part)"

/- What next does: it fails with an error, or with a nil error and a business code in the
RPCInfo. -/
inductive Result where
  | ok
  | failed (business : Bool)
  | panics
  deriving DecidableEq, Repr

inductive Point where
  | claim
  | next
  | free (business : Bool)
  | refused (why : Refusal)
  | ended (result : Result)
  deriving DecidableEq, Repr

structure Call where
  service : String
  method : String
  id : String
  point : Point
  deriving DecidableEq, Repr

def Call.target (call : Call) : String := call.service ++ "." ++ call.method
def Call.key (call : Call) : String := call.target ++ " " ++ call.id

structure State where
  made : String → Bool
  calls : List Call

def State.init : State := ⟨fun _ => false,[]⟩

def State.setCall (s : State) (c : Nat) (call : Call) : State := {s with calls := s.calls.set c call}

inductive Action where
  | call (service method id : String)
  | claim (c : Nat)
  | finish (c : Nat) (result : Result)
  | free (c : Nat)
  deriving DecidableEq, Repr

def derived (scope id : String) : Bool := id == scope || (scope ++ ":").toList.isPrefixOf id.toList

section Steps
variable (scope : String)

def checked (id : String) : Point :=
  if id = "" then .refused .none
  else if derived scope id = false then .refused .notDerived
  else .claim

def step (s : State) : Action → Option State
  | .call service method id => some {s with calls := s.calls ++ [⟨service,method,id,checked scope id⟩]}
  | .claim c => do
    let call ← s.calls[c]?
    match call.point with
    | .claim =>
      let twice := s.made call.key
      some ({s with made := Function.update s.made call.key true}.setCall c
        {call with point := if twice then .refused .twice else .next})
    | _ => none
  | .finish c result => do
    let call ← s.calls[c]?
    match call.point,result with
    | .next,.failed business => some (s.setCall c {call with point := .free business})
    | .next,result => some (s.setCall c {call with point := .ended result})
    | _,_ => none
  | .free c => do
    let call ← s.calls[c]?
    match call.point with
    | .free business => some ({s with made := Function.update s.made call.key false}.setCall c
        {call with point := .ended (.failed business)})
    | _ => none

inductive Does (s : State) : Action → State → Prop where
  | call (service method id : String) : Does s (.call service method id)
      {s with calls := s.calls ++ [⟨service,method,id,checked scope id⟩]}
  | sends {c call} (found : s.calls[c]? = some call) (here : call.point = .claim) (first : s.made call.key = false) :
      Does s (.claim c) ({s with made := Function.update s.made call.key true}.setCall c {call with point := .next})
  | refuses {c call} (found : s.calls[c]? = some call) (here : call.point = .claim) (twice : s.made call.key = true) :
      Does s (.claim c) ({s with made := Function.update s.made call.key true}.setCall c
        {call with point := .refused .twice})
  | ends {c call result} (found : s.calls[c]? = some call) (here : call.point = .next)
      (stays : result = .ok ∨ result = .panics) :
      Does s (.finish c result) (s.setCall c {call with point := .ended result})
  | fails {c call} (business : Bool) (found : s.calls[c]? = some call) (here : call.point = .next) :
      Does s (.finish c (.failed business)) (s.setCall c {call with point := .free business})
  | frees {c call business} (found : s.calls[c]? = some call) (here : call.point = .free business) :
      Does s (.free c) ({s with made := Function.update s.made call.key false}.setCall c
        {call with point := .ended (.failed business)})

end Steps

variable {scope : String} {s t : State} {a : Action}

theorem stepDoes (one : step scope s a = some t) : Does scope s a t := by
  cases a <;> simp only [step,bind,Option.bind_eq_some_iff,Option.some.injEq] at one
  case call service method id => subst one; exact .call service method id
  case claim c =>
    obtain ⟨call,found,last⟩ := one
    split at last <;> try contradiction
    rename_i here
    cases Option.some.inj last
    cases twice : s.made call.key with
    | true => exact .refuses found here twice
    | false => exact .sends found here twice
  case finish c result =>
    obtain ⟨call,found,last⟩ := one
    split at last <;> try contradiction
    · rename_i business here
      cases Option.some.inj last
      exact .fails business found here
    · rename_i result _ _ here plain
      cases Option.some.inj last
      cases result with
      | ok => exact .ends found here (.inl rfl)
      | panics => exact .ends found here (.inr rfl)
      | failed business => exact absurd rfl (plain business)
  case free c =>
    obtain ⟨call,found,last⟩ := one
    split at last <;> try contradiction
    rename_i here
    cases Option.some.inj last
    exact .frees found here

def Point.takes : Point → Bool
  | .next | .free _ | .ended .ok | .ended .panics => true
  | _ => false

def Point.holds : Point → Bool
  | .next | .free _ | .ended .ok => true
  | _ => false

def Point.sent : Point → Bool
  | .claim | .refused _ => false
  | _ => true

def Call.Alike (call other : Call) : Prop :=
  other.service = call.service ∧ other.method = call.method ∧ other.id = call.id

instance (call other : Call) : Decidable (call.Alike other) := by unfold Call.Alike; infer_instance

structure Claimed (scope : String) (s : State) : Prop where
  single : ∀ (c c' : Nat) (call call' : Call), s.calls[c]? = some call → s.calls[c']? = some call' →
    call.Alike call' → call.point.holds = true → call'.point.holds = true → c = c'
  derived : ∀ call ∈ s.calls, call.point.sent = true →
    call.id = scope ∨ ∃ part, call.id.toList = scope.toList ++ ':'::part

def Sends (scope : String) (s : State) (a : Action) : Prop :=
  ∀ c call t, a = .claim c → s.calls[c]? = some call → (∀ other ∈ s.calls, call.Alike other → other.point.holds = false) →
    step scope s a = some t → ∃ next, t.calls[c]? = some next ∧ next.point = .next

def Distinct (s : State) : Action → Prop
  | .claim c => ∀ call ∈ s.calls[c]?, ∀ other ∈ s.calls, other.key = call.key →
      other.point ≠ .ended .panics ∧ (other.point.holds = true → call.Alike other)
  | _ => True

instance decidableDistinct (s : State) (a : Action) : Decidable (Distinct s a) := by
  unfold Distinct
  cases a <;> infer_instance

structure Books (scope : String) (s : State) : Prop where
  taken : ∀ {c : Nat} {call : Call}, s.calls[c]? = some call → call.point.takes = true → s.made call.key = true
  owned : ∀ {key}, s.made key = true → ∃ call ∈ s.calls, call.key = key ∧ call.point.takes = true
  once : ∀ {c c' : Nat} {call call' : Call}, s.calls[c]? = some call → s.calls[c']? = some call' →
    call.key = call'.key → call.point.takes = true → call'.point.takes = true → c = c'
  checked : ∀ {c : Nat} {call : Call}, s.calls[c]? = some call →
    call.point.sent = true ∨ call.point = .claim → derived scope call.id = true

theorem checkedCases (scope id : String) :
    (checked scope id = .claim ∧ derived scope id = true) ∨ ∃ why, checked scope id = .refused why := by
  unfold checked
  split
  · exact .inr ⟨_,rfl⟩
  · split
    · exact .inr ⟨_,rfl⟩
    · rename_i fine
      exact .inl ⟨rfl,eq_true_of_ne_false fine⟩

theorem booksSet {c : Nat} {call next : Call} (inv : Books scope s) (found : s.calls[c]? = some call)
    (key : next.key = call.key) (takes : next.point.takes = call.point.takes)
    (fine : next.point.sent = true ∨ next.point = .claim → derived scope next.id = true) :
    Books scope (s.setCall c next) where
  taken := by
    intro i other mem takes'
    obtain ⟨-,rfl⟩ | ⟨-,mem⟩ := setFound mem
    · rw [State.setCall,key]; exact inv.taken found (takes ▸ takes')
    · exact inv.taken mem takes'
  owned := by
    intro k set
    obtain ⟨other,mem,same,takes'⟩ := inv.owned set
    obtain ⟨i,mem⟩ := List.mem_iff_getElem?.mp mem
    obtain ⟨rfl,stays⟩ | ⟨-,stays⟩ := setStays (i := c) (a := next) mem
    · cases Option.some.inj (found.symm.trans mem)
      exact ⟨next,List.mem_of_getElem? stays,key.trans same,takes.trans takes'⟩
    · exact ⟨other,List.mem_of_getElem? stays,same,takes'⟩
  once := by
    intro i j one two mem mem' same takes' takes''
    obtain ⟨rfl,rfl⟩ | ⟨-,kept⟩ := setFound mem
    · obtain ⟨rfl,-⟩ | ⟨-,kept'⟩ := setFound mem'
      · rfl
      · exact inv.once found kept' (key.symm.trans same) (takes ▸ takes') takes''
    · obtain ⟨rfl,rfl⟩ | ⟨-,kept'⟩ := setFound mem'
      · exact inv.once kept found (same.trans key) takes' (takes ▸ takes'')
      · exact inv.once kept kept' same takes' takes''
  checked := by
    intro i other mem past
    obtain ⟨-,rfl⟩ | ⟨-,mem⟩ := setFound mem
    · exact fine past
    · exact inv.checked mem past

theorem ownedElsewhere {c : Nat} {call next : Call} {key : String} {b : Bool} (inv : Books scope s) (found : s.calls[c]? = some call)
    (apart : key ≠ call.key) (set : Function.update s.made call.key b key = true) :
    ∃ other ∈ s.calls.set c next, other.key = key ∧ other.point.takes = true := by
  obtain ⟨one,mem,its,takes⟩ := inv.owned ((Function.update_of_ne apart ..).symm.trans set)
  obtain ⟨i,mem⟩ := List.mem_iff_getElem?.mp mem
  have elsewhere : i ≠ c := by
    rintro rfl
    cases Option.some.inj (found.symm.trans mem)
    exact apart its.symm
  exact ⟨one,List.mem_of_getElem? ((List.getElem?_set_ne elsewhere.symm).trans mem),its,takes⟩

theorem stepBooks (inv : Books scope s) (one : step scope s a = some t) : Books scope t := by
  cases stepDoes one with
  | call service method id =>
    have idle : (checked scope id).takes = false := by
      obtain ⟨next,-⟩ | ⟨why,next⟩ := checkedCases scope id <;> rw [next] <;> rfl
    constructor
    · intro i other mem takes
      obtain mem | ⟨-,rfl⟩ := concatFrom mem
      · exact inv.taken mem takes
      · exact Bool.noConfusion (idle.symm.trans takes)
    · intro key set
      obtain ⟨other,mem,same⟩ := inv.owned set
      exact ⟨other,List.mem_append_left _ mem,same⟩
    · intro i j one two mem mem' same takes takes'
      obtain mem | ⟨-,rfl⟩ := concatFrom mem
      · obtain mem' | ⟨-,rfl⟩ := concatFrom mem'
        · exact inv.once mem mem' same takes takes'
        · exact Bool.noConfusion (idle.symm.trans takes')
      · exact Bool.noConfusion (idle.symm.trans takes)
    · intro i other mem past
      obtain mem | ⟨-,rfl⟩ := concatFrom mem
      · exact inv.checked mem past
      · obtain ⟨-,fine⟩ | ⟨why,next⟩ := checkedCases scope id
        · exact fine
        · dsimp only at past
          rw [next] at past
          exact past.elim (fun bad => by cases bad) (fun bad => by cases bad)
  | @sends c call found here first =>
    have fine := inv.checked found (.inr here)
    have other {i : Nat} {one : Call} (mem : s.calls[i]? = some one) (takes : one.point.takes = true) :
        one.key ≠ call.key := fun same => by
      have set := inv.taken mem takes
      rw [same,first] at set
      cases set
    constructor
    · intro i one mem takes
      obtain ⟨-,rfl⟩ | ⟨-,mem⟩ := setFound mem
      · exact Function.update_self ..
      · exact (Function.update_of_ne (other mem takes) ..).trans (inv.taken mem takes)
    · intro key set
      by_cases same : key = call.key
      · subst same
        have short := (List.getElem?_eq_some_iff.mp found).1
        exact ⟨_,List.mem_of_getElem? (List.getElem?_set_self short),rfl,rfl⟩
      · exact ownedElsewhere (s := s) (b := true) inv found same set
    · intro i j one two mem mem' same takes takes'
      obtain ⟨rfl,rfl⟩ | ⟨-,kept⟩ := setFound mem
      · obtain ⟨rfl,-⟩ | ⟨-,kept'⟩ := setFound mem'
        · rfl
        · exact absurd same.symm (other kept' takes')
      · obtain ⟨rfl,rfl⟩ | ⟨-,kept'⟩ := setFound mem'
        · exact absurd same (other kept takes)
        · exact inv.once kept kept' same takes takes'
    · intro i one mem past
      obtain ⟨-,rfl⟩ | ⟨-,mem⟩ := setFound mem
      · exact fine
      · exact inv.checked mem past
  | @refuses c call found here twice =>
    have same : Function.update s.made call.key true = s.made := Function.update_eq_self_iff.mpr twice.symm
    rw [same]
    refine booksSet inv found rfl (by rw [here]; rfl) ?_
    rintro (bad | bad) <;> cases bad
  | @ends c call result found here stays =>
    have fine := inv.checked found (.inl (by rw [here]; rfl))
    refine booksSet inv found rfl ?_ (fun _ => fine)
    rw [here]
    obtain rfl | rfl := stays <;> rfl
  | @fails c call business found here =>
    have fine := inv.checked found (.inl (by rw [here]; rfl))
    refine booksSet inv found rfl ?_ (fun _ => fine)
    rw [here]
    rfl
  | @frees c call business found here =>
    have mine : call.point.takes = true := by rw [here]; rfl
    have fine := inv.checked found (.inl (by rw [here]; rfl))
    constructor
    · intro i one mem takes
      obtain ⟨-,rfl⟩ | ⟨apart,mem⟩ := setFound mem
      · cases takes
      · have differs : one.key ≠ call.key := fun same => apart (inv.once mem found same takes mine)
        exact (Function.update_of_ne differs ..).trans (inv.taken mem takes)
    · intro key set
      by_cases same : key = call.key
      · subst same
        exact Bool.noConfusion ((Function.update_self ..).symm.trans set)
      · exact ownedElsewhere (s := s) (b := false) inv found same set
    · intro i j one two mem mem' same takes takes'
      obtain ⟨-,rfl⟩ | ⟨-,kept⟩ := setFound mem
      · cases takes
      · obtain ⟨-,rfl⟩ | ⟨-,kept'⟩ := setFound mem'
        · cases takes'
        · exact inv.once kept kept' same takes takes'
    · intro i one mem past
      obtain ⟨-,rfl⟩ | ⟨-,mem⟩ := setFound mem
      · exact fine
      · exact inv.checked mem past

theorem reachableBooks (ok : Reachable (step scope) State.init s) : Books scope s := by
  refine reachableKeeps stepBooks ⟨?_,?_,?_,?_⟩ ok
  · exact fun mem => by simp [State.init] at mem
  · exact fun set => by cases set
  · exact fun mem => by simp [State.init] at mem
  · exact fun mem => by simp [State.init] at mem

theorem holdsTakes {p : Point} (holds : p.holds = true) : p.takes = true := by
  cases p with
  | next | free => rfl
  | claim | refused => cases holds
  | ended result => cases result <;> first | rfl | cases holds

theorem takesHolds {p : Point} (takes : p.takes = true) : p.holds = true ∨ p = .ended .panics := by
  cases p with
  | next | free => exact .inl rfl
  | claim | refused => cases takes
  | ended result => cases result <;> first | exact .inl rfl | exact .inr rfl | cases takes

theorem alikeKey {call other : Call} (alike : call.Alike other) : other.key = call.key := by
  obtain ⟨service,method,id⟩ := alike
  rw [Call.key,Call.key,Call.target,Call.target,service,method,id]

theorem derivedIs {scope id : String} (fine : derived scope id = true) :
    id = scope ∨ ∃ part, id.toList = scope.toList ++ ':'::part := by
  obtain same | start := (Bool.or_eq_true ..).mp fine
  · exact .inl (eq_of_beq same)
  · obtain ⟨part,whole⟩ := List.isPrefixOf_iff_prefix.mp start
    refine .inr ⟨part,?_⟩
    rw [← whole,String.toList_append,List.append_assoc]
    rfl

theorem booksClaimed (inv : Books scope s) : Claimed scope s where
  single := by
    intro c c' call call' found found' alike holds holds'
    exact inv.once found found' (alikeKey alike).symm (holdsTakes holds) (holdsTakes holds')
  derived := by
    intro call mem sent
    obtain ⟨c,found⟩ := List.mem_iff_getElem?.mp mem
    exact derivedIs (inv.checked found (.inl sent))

theorem sendsIff (inv : Books scope s) (one : step scope s a = some t) : Sends scope s a ↔ Distinct s a := by
  cases stepDoes one with
  | call | ends | fails | frees => exact ⟨fun _ => trivial,fun _ c call t same => by cases same⟩
  | @sends c call found here first =>
    have untaken {other : Call} (mem : other ∈ s.calls) (same : other.key = call.key) : other.point.takes = false := by
      refine eq_false_of_ne_true fun takes => ?_
      obtain ⟨i,mem⟩ := List.mem_iff_getElem?.mp mem
      have set := inv.taken mem takes
      rw [same,first] at set
      cases set
    constructor
    · intro _ call' found' other mem same
      cases Option.some.inj (found.symm.trans found')
      have idle := untaken mem same
      refine ⟨fun panicked => ?_,fun holds => Bool.noConfusion (idle.symm.trans (holdsTakes holds))⟩
      rw [panicked] at idle
      cases idle
    · intro _ c' call' t' same found' _ ok
      cases same
      cases Option.some.inj (one.symm.trans ok)
      exact ⟨_,List.getElem?_set_self (List.getElem?_eq_some_iff.mp found).1,rfl⟩
  | @refuses c call found here twice =>
    constructor
    · intro sends call' found' other mem same
      cases Option.some.inj (found.symm.trans found')
      obtain ⟨holder,mem',alike,holds⟩ : ∃ holder ∈ s.calls, call.Alike holder ∧ holder.point.holds = true := by
        refine Classical.byContradiction fun none' => ?_
        have free : ∀ other ∈ s.calls, call.Alike other → other.point.holds = false := fun other mem alike =>
          eq_false_of_ne_true fun holds => none' ⟨other,mem,alike,holds⟩
        obtain ⟨next,its,sent⟩ := sends c call _ rfl found free one
        cases Option.some.inj ((List.getElem?_set_self (List.getElem?_eq_some_iff.mp found).1).symm.trans its)
        cases sent
      have its : other.point.takes = true → other = holder := by
        intro takes
        obtain ⟨i,mem⟩ := List.mem_iff_getElem?.mp mem
        obtain ⟨j,mem'⟩ := List.mem_iff_getElem?.mp mem'
        cases inv.once mem mem' (same.trans (alikeKey alike).symm) takes (holdsTakes holds)
        exact Option.some.inj (mem.symm.trans mem')
      constructor
      · intro panicked
        have itself := its (by rw [panicked]; rfl)
        rw [← itself,panicked] at holds
        cases holds
      · intro busy
        rw [its (holdsTakes busy)]
        exact alike
    · intro distinct c' call' t' same found' free ok
      cases same
      cases Option.some.inj (found.symm.trans found')
      obtain ⟨owner,mem,same,takes⟩ := inv.owned twice
      obtain ⟨fine,alike⟩ := distinct call found owner mem same
      obtain holds | panicked := takesHolds takes
      · exact Bool.noConfusion ((free owner mem (alike holds)).symm.trans holds)
      · exact absurd panicked fine

theorem sendsDistinct {as : List Action} :
    Along (step scope) (Sends scope) State.init as ↔ Along (step scope) Distinct State.init as := by
  have start : Books scope State.init := reachableBooks ⟨[],rfl⟩
  constructor
  · exact alongKeeps (fun inv _ one => stepBooks inv one) (fun inv here one => (sendsIff inv one).mp here) start
  · exact alongKeeps (fun inv _ one => stepBooks inv one) (fun inv here one => (sendsIff inv one).mpr here) start

theorem idsClaimed (scope : String) (as : List Action) :
    ((∀ front back t, as = front ++ back → run (step scope) State.init front = some t → Claimed scope t) ∧
      Along (step scope) (Sends scope) State.init as) ↔ Along (step scope) Distinct State.init as := by
  constructor
  · exact fun both => sendsDistinct.mp both.2
  · intro distinct
    exact ⟨fun front back t _ ok => booksClaimed (reachableBooks ⟨front,ok⟩),sendsDistinct.mpr distinct⟩

theorem panicKeeps : ¬∀ (scope : String) (as : List Action),
    (∀ front back t, as = front ++ back → run (step scope) State.init front = some t → Claimed scope t) ∧
      Along (step scope) (Sends scope) State.init as := by
  intro all
  have distinct := sendsDistinct.mp (all "r1" [.call "wallet" "Debit" "r1",.claim 0,.finish 0 .panics,
    .call "wallet" "Debit" "r1",.claim 1]).2
  revert distinct
  decide

def Plain : Action → Prop
  | .call service method _ => ' ' ∉ service.toList ∧ ' ' ∉ method.toList ∧ '.' ∉ method.toList
  | .finish _ result => result ≠ .panics
  | _ => True

def Call.PlainNames (call : Call) : Prop := ' ' ∉ call.service.toList ∧ ' ' ∉ call.method.toList ∧ '.' ∉ call.method.toList

theorem keyPlain {call other : Call} (plain : call.PlainNames) (plain' : other.PlainNames) (same : other.key = call.key) :
    call.Alike other := by
  have lists := congrArg String.toList same
  simp only [Call.key,Call.target,String.toList_append,show " ".toList = [' '] from rfl,List.append_assoc,
    List.cons_append,List.nil_append] at lists
  have blank {c : Call} (names : c.PlainNames) : ' ' ∉ c.service.toList ++ ".".toList ++ c.method.toList := by
    simp only [List.mem_append,not_or]
    exact ⟨⟨names.1,by decide⟩,names.2.1⟩
  obtain ⟨target,id⟩ := cutUnique (p := other.id.toList) (q := call.id.toList) (blank plain') (blank plain)
    (by simpa only [List.append_assoc] using lists)
  have names : other.service.toList ++ '.'::other.method.toList = call.service.toList ++ '.'::call.method.toList := by
    simpa using target
  obtain ⟨service,method⟩ := cutLast plain'.2.2 plain.2.2 names
  exact ⟨String.toList_inj.mp service,String.toList_inj.mp method,String.toList_inj.mp id⟩

structure PlainCalls (scope : String) (s : State) : Prop where
  books : Books scope s
  plain : ∀ call ∈ s.calls, call.PlainNames ∧ call.point ≠ .ended .panics

theorem stepPlain (inv : PlainCalls scope s) (plain : Plain a) (one : step scope s a = some t) : PlainCalls scope t := by
  refine ⟨stepBooks inv.books one,?_⟩
  have moved {c : Nat} {call next : Call} (found : s.calls[c]? = some call) (same : next.service = call.service)
      (same' : next.method = call.method) (fine : next.point ≠ .ended .panics) :
      ∀ other ∈ s.calls.set c next, other.PlainNames ∧ other.point ≠ .ended .panics := by
    intro other mem
    obtain old | rfl := List.mem_or_eq_of_mem_set mem
    · exact inv.plain other old
    · have before := (inv.plain call (List.mem_of_getElem? found)).1
      rw [Call.PlainNames,same,same']
      exact ⟨before,fine⟩
  cases stepDoes one with
  | call service method id =>
    intro other mem
    obtain old | new := List.mem_append.mp mem
    · exact inv.plain other old
    · cases List.mem_singleton.mp new
      refine ⟨plain,?_⟩
      obtain ⟨next,-⟩ | ⟨why,next⟩ := checkedCases scope id <;> rw [next] <;> exact Point.noConfusion
  | sends found here first => exact moved found rfl rfl Point.noConfusion
  | refuses found here twice => exact moved found rfl rfl Point.noConfusion
  | ends found here stays =>
    refine moved found rfl rfl ?_
    rintro same
    cases same
    exact plain rfl
  | fails business found here => exact moved found rfl rfl Point.noConfusion
  | frees found here => exact moved found rfl rfl (fun same => by cases same)

theorem plainSends {scope : String} {as : List Action} (plain : ∀ a ∈ as, Plain a) :
    Along (step scope) (Sends scope) State.init as := by
  have start : PlainCalls scope State.init := ⟨reachableBooks ⟨[],rfl⟩,fun call mem => absurd mem List.not_mem_nil⟩
  refine alongKeeps stepPlain (fun {s a t} inv _ one => ?_) start (alongForall plain _)
  refine (sendsIff inv.books one).mpr ?_
  cases a with
  | claim c =>
    intro call found other mem same
    obtain ⟨names,fine⟩ := inv.plain other mem
    exact ⟨fine,fun _ => keyPlain (inv.plain call (List.mem_of_getElem? found)).1 names same⟩
  | call | finish | free => trivial

end DevkitCommon.Kitexx.RequestID
