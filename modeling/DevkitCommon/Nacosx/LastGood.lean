import DevkitCommon.Nacosx.Steps
import Mathlib.Data.List.Nodup

/-! The last good version stays. What a value is can be read off the contents it was handed:
it is the decoding of the last accepted one, and each hook has been called once for each
accepted content since it was registered. -/
namespace DevkitCommon.Nacosx
open Machine
variable {T : Type}

section Log
variable (env : Env T)

def accepts (content : Content) : Option T :=
  if isBlank content then none
  else match decode env content with
    | .ok cur _ => some cur
    | _ => none

def Event.good : Event T → Option (Content × T)
  | .content c => (accepts env c).map (fun cur => (c,cur))
  | _ => none

def good (log : List (Event T)) : List (Content × T) := log.filterMap (Event.good env)

def Event.registers : Event T → Option Nat
  | .registered fn => some fn
  | _ => none

def registered (log : List (Event T)) : List Nat := log.filterMap Event.registers

def Event.calls (fn : Nat) : Event T → Option (Option T × T)
  | .called g old cur => if g = fn then some (old,cur) else none
  | _ => none

def callsOf (fn : Nat) (log : List (Event T)) : List (Option T × T) := log.filterMap (Event.calls fn)

/- The calls a hook is due: one for each accepted content since its registration, with the
value before it. old is the value in effect, since says that the hook is there. -/
def due (fn : Nat) (old : Option T) (since : Bool) : List (Event T) → List (Option T × T)
  | [] => []
  | .registered g::rest => due fn old (since || g == fn) rest
  | .called _ _ _::rest => due fn old since rest
  | .content content::rest => match accepts env content with
    | none => due fn old since rest
    | some cur => if since then (old,cur)::due fn (some cur) since rest else due fn (some cur) since rest

def inEffect (old : Option T) (log : List (Event T)) : Option T :=
  match (good env log).getLast? with
  | some g => some g.2
  | none => old

end Log

structure LastGood (env : Env T) (call : Call T) : Prop where
  kept : ∃ content cur, (good env call.log).getLast? = some (content,cur) ∧ accepts env content = some cur ∧
    call.value.cur = some cur ∧ call.value.doc = document env content ∧ call.value.sum = sum content
  told : ∀ fn, callsOf fn call.log = due env fn none false call.log

section Log
variable {env : Env T} {v : Value T} {content : Content} {cur : T} {old : Option T} {fn : Nat} {since : Bool}
  {ends : Nat → Ended}

theorem goodAccepted {log : List (Event T)} {g : Content × T} (mem : g ∈ good env log) :
    accepts env g.1 = some g.2 := by
  obtain ⟨e,_,same⟩ := List.mem_filterMap.mp mem
  cases e with
  | content content =>
    obtain ⟨cur,good,rfl⟩ := Option.map_eq_some_iff.mp same
    exact good
  | registered => exact absurd same.symm (Option.some_ne_none _)
  | called => exact absurd same.symm (Option.some_ne_none _)

theorem goodAppend (front back : List (Event T)) : good env (front ++ back) = good env front ++ good env back :=
  List.filterMap_append

theorem inEffectCons (e : Event T) (log : List (Event T)) :
    inEffect env old (e::log) = inEffect env (match e.good env with | some g => some g.2 | none => old) log := by
  unfold inEffect good
  rw [List.filterMap_cons]
  cases e.good env with
  | none => rfl
  | some g =>
    dsimp only
    cases last : (List.filterMap (Event.good env) log).getLast? with
    | none =>
      rw [List.getLast?_eq_none_iff.mp last]
      rfl
    | some h => rw [List.getLast?_cons,last]; rfl

theorem dueAppend (front back : List (Event T)) : due env fn old since (front ++ back) =
    due env fn old since front ++ due env fn (inEffect env old front) (since || (registered front).contains fn) back := by
  induction front generalizing old since with
  | nil => simp [due,inEffect,good,registered]
  | cons e front ih =>
    rw [inEffectCons]
    cases e with
    | registered g =>
      rw [List.cons_append,due,due,ih]
      have same : (g == fn || (registered front).contains fn) =
          (registered (Event.registered g::front) (T := T)).contains fn := by
        show _ = (g::registered front).contains fn
        rw [List.contains_cons,Bool.beq_comm]
      rw [Bool.or_assoc,same]
      rfl
    | called g o c => rw [List.cons_append,due,due,ih]; rfl
    | content content =>
      rw [List.cons_append,due,due]
      cases got : accepts env content with
      | none =>
        simp only [ih,Event.good,got,Option.map_none]
        rfl
      | some cur =>
        simp only [ih,Event.good,got,Option.map_some]
        cases since <;> rfl

theorem callsOfAppend (front back : List (Event T)) :
    callsOf fn (front ++ back) = callsOf fn front ++ callsOf fn back := List.filterMap_append

theorem callHooksAll (fns : List Nat) :
    callHooks ends old cur fns = (fns.map (fun fn => .called fn old cur),.returns) := by
  induction fns with
  | nil => rfl
  | cons fn rest ih => simp only [callHooks,hook,ih,List.map_cons]

theorem changedAccepts (good : accepts env content = some cur) : changed env ends v content =
    (v.replaced env content cur,v.hooks.map (fun fn => .called fn v.cur cur),.returns) := by
  unfold accepts at good
  unfold changed
  split at good
  · exact absurd good.symm (Option.some_ne_none _)
  · rename_i fine
    rw [if_neg fine]
    split at good
    · rename_i got
      cases good
      simp only [got,callHooksAll]
    · exact absurd good.symm (Option.some_ne_none _)

theorem changedRefuses (bad : accepts env content = none) : ∃ ended, changed env ends v content = (v,[],ended) := by
  unfold accepts at bad
  unfold changed
  split at bad
  · rename_i blank
    exact ⟨_,if_pos blank⟩
  · rename_i fine
    rw [if_neg fine]
    cases got : decode env content with
    | ok cur unknown =>
      rw [got] at bad
      exact absurd bad (Option.some_ne_none _)
    | err => exact ⟨_,rfl⟩
    | panics => exact ⟨_,rfl⟩

theorem loadAccepts {w : Value T} (good : load env v content = .ok w) :
    ∃ cur, accepts env content = some cur ∧ w = v.replaced env content cur := by
  unfold load at good
  unfold accepts
  split at good
  · simp only [reduceCtorEq] at good
  · rename_i fine
    rw [if_neg fine]
    cases got : decode env content with
    | ok cur unknown =>
      rw [got] at good
      cases good
      exact ⟨cur,rfl,rfl⟩
    | err => rw [got] at good; simp only [reduceCtorEq] at good
    | panics => rw [got] at good; simp only [reduceCtorEq] at good

theorem callsOfChange (fns : List Nat) (unique : fns.Nodup) :
    callsOf fn (fns.map (fun fn => Event.called fn old cur)) = if fns.contains fn then [(old,cur)] else [] := by
  induction fns with
  | nil => rfl
  | cons g rest ih =>
    obtain ⟨fresh,unique⟩ := List.nodup_cons.mp unique
    rw [List.map_cons,List.contains_cons]
    show List.filterMap (Event.calls fn) (Event.called g old cur::_) = _
    rw [List.filterMap_cons]
    by_cases same : g = fn
    · subst same
      have none : (rest.contains g) = false := by simpa using fresh
      have tail := ih unique
      rw [none] at tail
      simp only [Event.calls,if_true,beq_self_eq_true,Bool.true_or]
      exact congrArg ((old,cur)::·) tail
    · have other : (fn == g) = false := beq_eq_false_iff_ne.mpr (Ne.symm same)
      simp only [Event.calls,if_neg same,other,Bool.false_or]
      exact ih unique

end Log

def Point.first : Point → Bool
  | .follow | .inside | .load _ | .unfollow => true
  | _ => false

structure Sound (env : Env T) (call : Call T) : Prop where
  cur : call.value.cur = inEffect env none call.log
  kept : ∀ content cur, (good env call.log).getLast? = some (content,cur) →
    call.value.doc = document env content ∧ call.value.sum = sum content
  loaded : call.point = .returned → good env call.log ≠ []
  hooks : call.value.hooks = registered call.log
  named : call.value.hooks = List.range call.value.hooks.length
  told : ∀ fn, callsOf fn call.log = due env fn none false call.log
  early : call.point.first = true → call.log = [] ∧ call.value.mu = some .watch

structure Steady (env : Env T) (s : State T) : Prop where
  sound : ∀ (c : Nat) (call : Call T), s.calls[c]? = some call → call.watch = true → Sound env call
  inside : Inside s
  told : ∀ caller content version c rest turn, s.w.mu = some ⟨caller,.tell content version (c::rest) turn⟩ →
    turn ≠ .next → ∃ call, s.calls[c]? = some call ∧ call.watch = true ∧ (turn = .locked → call.value.mu = some .told)

section Sound
variable {env : Env T} {s t : State T} {a : Action} {c d : Nat} {call x y : Call T} {content : Content}

theorem soundStart : Sound env (Call.start true) where
  cur := rfl
  kept _ _ last := absurd last.symm (Option.some_ne_none _)
  loaded here := by simp [Call.start] at here
  hooks := rfl
  named := rfl
  told _ := rfl
  early _ := ⟨rfl,rfl⟩

theorem soundAlong {mu : Option Party} (sound : Sound env call) (log : x.log = call.log)
    (value : x.value = {call.value with mu := mu}) (loaded : x.point = .returned → call.point = .returned)
    (early : x.point.first = true → mu = some .watch ∧ call.point.first = true) : Sound env x where
  cur := by rw [value,log]; exact sound.cur
  kept content cur last := by rw [log] at last; rw [value]; exact sound.kept content cur last
  loaded here := by rw [log]; exact sound.loaded (loaded here)
  hooks := by rw [value,log]; exact sound.hooks
  named := by rw [value]; exact sound.named
  told fn := by rw [log]; exact sound.told fn
  early here := by
    obtain ⟨locked,first⟩ := early here
    rw [value,log]
    exact ⟨(sound.early first).1,locked⟩

theorem registeredAppend (front back : List (Event T)) :
    registered (front ++ back) = registered front ++ registered back := List.filterMap_append

theorem registeredCalls (fns : List Nat) (old : Option T) (cur : T) :
    registered (fns.map (fun fn => Event.called fn old cur)) = [] := by
  induction fns with
  | nil => rfl
  | cons fn rest ih => exact ih

theorem goodCalls (fns : List Nat) (old : Option T) (cur : T) :
    good env (fns.map (fun fn => Event.called fn old cur)) = [] := by
  induction fns with
  | nil => rfl
  | cons fn rest ih => exact ih

theorem dueCalls (fn : Nat) (old before : Option T) (since : Bool) (cur : T) (fns : List Nat) :
    due env fn old since (fns.map (fun fn => Event.called fn before cur)) = [] := by
  induction fns with
  | nil => rfl
  | cons g rest ih => exact ih

theorem goodChange {content : Content} {cur : T} (log : List (Event T)) (fns : List Nat) (old : Option T)
    (good' : accepts env content = some cur) :
    good env (log ++ .content content::fns.map (fun fn => .called fn old cur)) = good env log ++ [(content,cur)] := by
  rw [goodAppend]
  show good env log ++ List.filterMap (Event.good env) (Event.content content::_) = _
  rw [List.filterMap_cons]
  simp only [Event.good,good',Option.map_some]
  exact congrArg (fun l => good env log ++ (content,cur)::l) (goodCalls fns old cur)

theorem soundAccepts {cur : T} (mu : Option Party) (point : Point) (sound : Sound env call)
    (good' : accepts env content = some cur) (late : point.first = false) :
    Sound env {call with
      point := point
      value := {call.value.replaced env content cur with mu := mu}
      log := call.log ++ .content content::call.value.hooks.map (fun fn => .called fn call.value.cur cur)} where
  cur := by
    unfold inEffect
    rw [goodChange _ _ _ good',List.getLast?_concat]
    rfl
  kept c g last := by
    dsimp only at last
    rw [goodChange _ _ _ good',List.getLast?_concat] at last
    cases last
    exact ⟨rfl,rfl⟩
  loaded _ := by
    dsimp only
    rw [goodChange _ _ _ good']
    exact List.concat_ne_nil _ _
  hooks := by
    show call.value.hooks = registered (call.log ++ _)
    rw [registeredAppend]
    show _ = _ ++ registered (call.value.hooks.map _)
    rw [registeredCalls,List.append_nil]
    exact sound.hooks
  named := sound.named
  told fn := by
    have unique : call.value.hooks.Nodup := sound.named ▸ List.nodup_range
    show callsOf fn (call.log ++ _) = _
    rw [callsOfAppend,dueAppend,sound.told fn]
    show _ ++ callsOf fn (call.value.hooks.map _) = _ ++ due env fn _ _ (.content content::_)
    rw [callsOfChange _ unique,due,good']
    simp only [Bool.false_or]
    rw [dueCalls,← sound.hooks,← sound.cur]
  early here := by rw [late] at here; contradiction

theorem soundRefuses {mu : Option Party} (sound : Sound env call) (bad : accepts env content = none)
    (late : call.point.first = false) :
    Sound env {call with value := {call.value with mu := mu},log := call.log ++ [.content content]} := by
  have quiet : good env [Event.content content] = [] := by simp [good,Event.good,bad]
  have same : good env (call.log ++ [.content content]) = good env call.log := by
    rw [goodAppend,quiet,List.append_nil]
  constructor
  · show call.value.cur = inEffect env none (call.log ++ _)
    rw [inEffect,same]
    exact sound.cur
  · intro c g last
    exact sound.kept c g (same ▸ last)
  · intro here
    exact same.symm ▸ sound.loaded here
  · show call.value.hooks = registered (call.log ++ _)
    rw [registeredAppend]
    exact sound.hooks.trans (List.append_nil _).symm
  · exact sound.named
  · intro fn
    show callsOf fn (call.log ++ _) = due env fn none false (call.log ++ _)
    rw [callsOfAppend,dueAppend,sound.told fn,due,bad]
    rfl
  · intro here
    rw [show call.point.first = true from here] at late
    contradiction

theorem soundHook (sound : Sound env call) (late : call.point.first = false) :
    Sound env {call with value := call.value.onChange,log := call.log ++ [.registered call.value.hooks.length]} := by
  have quiet : good env (call.log ++ [.registered call.value.hooks.length]) = good env call.log := by
    rw [goodAppend]
    exact List.append_nil _
  constructor
  · show call.value.cur = inEffect env none (call.log ++ _)
    rw [inEffect,quiet]
    exact sound.cur
  · intro c g last
    exact sound.kept c g (quiet ▸ last)
  · intro here
    exact quiet.symm ▸ sound.loaded here
  · show call.value.hooks ++ [_] = registered (call.log ++ _)
    rw [registeredAppend,← sound.hooks]
    rfl
  · show call.value.hooks ++ [_] = List.range (call.value.hooks ++ [_]).length
    rw [List.length_append,List.length_singleton,List.range_succ,← sound.named]
  · intro fn
    show callsOf fn (call.log ++ _) = due env fn none false (call.log ++ _)
    rw [callsOfAppend,dueAppend,sound.told fn]
    rfl
  · intro here
    rw [show call.point.first = true from here] at late
    contradiction

theorem soundFails (sound : Sound env call) : Sound env call.fails :=
  soundAlong sound rfl rfl (fun here => by simp [Call.fails] at here) (fun here => by simp [Call.fails,Point.first] at here)

theorem soundJoins {version : Nat} (sound : Sound env call) (watch : call.watch = true) (inside : call.point = .inside) :
    Sound env (call.joins content version) := by
  have first : call.point.first = true := by rw [inside]; rfl
  refine soundAlong sound rfl (show _ = {call.value with mu := call.value.mu} from rfl) (fun here => ?_)
    (fun _ => ⟨(sound.early first).2,first⟩)
  simp [Call.joins,watch] at here

theorem soundLoads {v : Value T} (sound : Sound env call) (here : call.point = .load content)
    (good' : load env call.value content = .ok v) :
    Sound env {call with point := .returned,value := {v with mu := none},log := call.log ++ [.content content]} := by
  obtain ⟨cur,accepted,rfl⟩ := loadAccepts good'
  have empty := (sound.early (by rw [here]; rfl)).1
  have none' : call.value.hooks = [] := by rw [sound.hooks,empty]; rfl
  have after := soundAccepts none .returned sound accepted rfl
  rw [none'] at after
  exact after

theorem soundChanges {ends : Nat → Ended} {v : Value T} {calls : List (Event T)} {ended : Ended} (sound : Sound env call)
    (late : call.point.first = false) (becomes : changed env ends call.value content = (v,calls,ended)) :
    Sound env {call with value := {v with mu := none},log := call.log ++ .content content::calls} := by
  cases got : accepts env content with
  | none =>
    obtain ⟨e,same⟩ : ∃ e, changed env ends call.value content = (call.value,[],e) := changedRefuses got
    cases same.symm.trans becomes
    exact soundRefuses sound got late
  | some cur =>
    have accepted : changed env ends call.value content = _ := changedAccepts got
    cases accepted.symm.trans becomes
    exact soundAccepts _ _ sound got late

theorem toldLate (sound : Sound env call) (locked : call.value.mu ≠ some .watch) : call.point.first = false :=
  eq_false_of_ne_true (fun first => locked (sound.early first).2)

theorem soundStep (inv : Steady env s) (does : Does env s a t) (found : t.calls[d]? = some x)
    (watch : x.watch = true) : Sound env x := by
  have one {e : Nat} {y z : Call T} (there : s.calls[e]? = some y) (after : (s.calls.set e z)[d]? = some x)
      (same : z.watch = y.watch) (sound : y.watch = true → Sound env y → Sound env z) : Sound env x := by
    rcases setFound after with ⟨rfl,rfl⟩ | ⟨_,before⟩
    · exact sound (same ▸ watch) (inv.sound _ y there (same ▸ watch))
    · exact inv.sound d x before watch
  cases does with
  | write | push | done | leaves | takePush | pushed | asked | asks => exact inv.sound d x found watch
  | call kind =>
    rcases concatFrom found with before | ⟨_,rfl⟩
    · exact inv.sound d x before watch
    · obtain rfl : kind = true := watch
      exact soundStart
  | takeFollow there free here =>
    refine one there found rfl (fun _ sound => ?_)
    have first := (sound.early (by rw [here]; rfl)).2
    exact soundAlong sound rfl rfl (fun out => by simp at out) (fun _ => ⟨first,by rw [here]; rfl⟩)
  | fails held there => exact one there found rfl (fun _ sound => soundFails sound)
  | listens held there =>
    exact one there found rfl (fun kind sound => soundJoins sound kind (heldInside inv.inside held there))
  | tells ended held there =>
    refine one there found rfl (fun _ sound => ?_)
    exact soundAlong sound rfl rfl id (fun first => ⟨(sound.early first).2,first⟩)
  | locks held there free =>
    refine one there found rfl (fun _ sound => ?_)
    have late := toldLate sound (by rw [free]; exact (Option.some_ne_none _).symm)
    exact soundAlong sound rfl rfl id (fun first => by rw [show _ = true from first] at late; contradiction)
  | changes held there becomes =>
    refine one there found rfl (fun _ sound => ?_)
    obtain ⟨y,here,_,locked⟩ := inv.told _ _ _ _ _ _ held Turn.noConfusion
    cases Option.some.inj (there.symm.trans here)
    exact soundChanges sound (toldLate sound (by rw [locked rfl]; decide)) becomes
  | joins held there =>
    exact one there found rfl (fun kind sound => soundJoins sound kind (heldInside inv.inside held there))
  | loads there here good => exact one there found rfl (fun _ sound => soundLoads sound here good)
  | panics there here =>
    exact one there found rfl (fun _ sound => soundAlong sound rfl rfl (fun out => by simp at out)
      (fun first => by simp [Point.first] at first))
  | refuses there here =>
    refine one there found rfl (fun _ sound => ?_)
    have first : _ := sound.early (by rw [here]; rfl)
    exact soundAlong sound rfl rfl (fun out => by simp at out) (fun _ => ⟨first.2,by rw [here]; rfl⟩)
  | unfollows there => exact one there found rfl (fun _ sound => soundFails sound)
  | hooks there _ here => exact one there found rfl (fun _ sound => soundHook sound (by rw [here]; rfl))

theorem toldStep (inv : Steady env s) (does : Does env s a t) {caller : Caller} {version : Nat} {rest : List Nat}
    {turn : Turn} (held : t.w.mu = some ⟨caller,.tell content version (c::rest) turn⟩) (here : turn ≠ .next) :
    ∃ x, t.calls[c]? = some x ∧ x.watch = true ∧ (turn = .locked → x.value.mu = some .told) := by
  have one {e : Nat} {y z : Call T} (before : s.w.mu = some ⟨caller,.tell content version (c::rest) turn⟩)
      (there : s.calls[e]? = some y) (same : z.watch = y.watch)
      (other : y.watch = true → y.value.mu ≠ some .told) :
      ∃ x, (s.calls.set e z)[c]? = some x ∧ x.watch = true ∧ (turn = .locked → x.value.mu = some .told) := by
    obtain ⟨call,found,watch,locked⟩ := inv.told _ _ _ _ _ _ before here
    rcases setStays (i := e) (a := z) found with ⟨rfl,after⟩ | ⟨_,after⟩
    · cases Option.some.inj (found.symm.trans there)
      exact ⟨z,after,same.trans watch,fun now => absurd (locked now) (other watch)⟩
    · exact ⟨call,after,watch,locked⟩
  have early {e : Nat} {y : Call T} (there : s.calls[e]? = some y) (first : y.point.first = true)
      (watch : y.watch = true) : y.value.mu ≠ some .told := by
    rw [((inv.sound e y there watch).early first).2]
    decide
  cases does with
  | write | push => exact inv.told _ _ _ _ _ _ held here
  | call kind =>
    obtain ⟨call,found,kept⟩ := inv.told _ _ _ _ _ _ held here
    exact ⟨call,concatStays found,kept⟩
  | takePush | takeFollow | asks | fails | listens | done | joins =>
    simp only [State.hold,State.setCall,Option.some.injEq,Hold.mk.injEq,reduceCtorEq,and_false] at held
  | pushed ok before =>
    rcases appliedMu _ _ _ with ⟨_,mu⟩ | ⟨_,mu⟩ <;>
      exact absurd (Stage.tell.inj (Hold.mk.inj (Option.some.inj (mu.symm.trans held))).2).2.2.2.symm here
  | asked before =>
    rcases appliedMu _ _ _ with ⟨_,mu⟩ | ⟨_,mu⟩ <;>
      exact absurd (Stage.tell.inj (Hold.mk.inj (Option.some.inj (mu.symm.trans held))).2).2.2.2.symm here
  | tells ended before there after =>
    cases held
    split at after <;> cases after
    · rename_i watch
      exact ⟨_,List.getElem?_set_self (List.getElem?_eq_some_iff.mp there).1,watch,fun no => Turn.noConfusion no⟩
    · exact absurd rfl here
  | locks before there =>
    cases held
    obtain ⟨y,found,watch,_⟩ := inv.told _ _ _ _ _ _ before Turn.noConfusion
    cases Option.some.inj (there.symm.trans found)
    exact ⟨_,List.getElem?_set_self (List.getElem?_eq_some_iff.mp there).1,watch,fun _ => rfl⟩
  | changes => cases held; exact absurd rfl here
  | loads there point => exact one held there rfl (early there (by rw [point]; rfl))
  | panics there point => exact one held there rfl (early there (by rw [point]; rfl))
  | refuses there point => exact one held there rfl (early there (by rw [point]; rfl))
  | unfollows there free => exact absurd (free.symm.trans held).symm (Option.some_ne_none _)
  | leaves there free => exact absurd (free.symm.trans held).symm (Option.some_ne_none _)
  | hooks there _ _ free => exact one held there rfl (fun _ => by rw [free]; exact (Option.some_ne_none _).symm)

theorem steadyStep (inv : Steady env s) (does : Does env s a t) : Steady env t where
  sound _ _ found watch := soundStep inv does found watch
  inside := insideStep inv.inside does
  told _ _ _ _ _ _ held here := toldStep inv does held here

theorem steadyStart (start : Content) : Steady env (State.init start) :=
  ⟨fun _ _ found => absurd found (by simp [State.init]),insideStart start,
    fun _ _ _ _ _ _ held => absurd held.symm (Option.some_ne_none _)⟩

theorem soundLast (sound : Sound env call) (here : call.point = .returned) : LastGood env call := by
  have some := sound.loaded here
  obtain ⟨⟨k,cur⟩,last⟩ := Option.isSome_iff_exists.mp (List.getLast?_isSome.mpr some)
  have good' := goodAccepted (List.mem_of_getLast? last)
  obtain ⟨doc,sum⟩ := sound.kept k cur last
  refine ⟨⟨k,cur,last,good',?_,doc,sum⟩,sound.told⟩
  rw [sound.cur,inEffect,last]

end Sound

def Handed (call after : Call T) (content : Content) : Prop := ∃ calls, after.log = call.log ++ .content content::calls

def Untouched (call after : Call T) (content : Content) : Prop :=
  after.value.cur = call.value.cur ∧ after.value.doc = call.value.doc ∧ after.value.sum = call.value.sum ∧
    after.log = call.log ++ [.content content]

theorem refusedStep {env : Env T} {s t : State T} {a : Action} {c : Nat} {call after : Call T} {content : Content}
    (does : Does env s a t) (before : s.calls[c]? = some call) (found : t.calls[c]? = some after)
    (handed : Handed call after content) (bad : accepts env content = none) : Untouched call after content := by
  obtain ⟨calls,log⟩ := handed
  have quiet (same : after.log = call.log) : Untouched call after content := by
    rw [same] at log
    exact absurd log.symm (fun no => List.cons_ne_nil _ _ (List.append_right_eq_self.mp no))
  have same (here : s.calls[c]? = some after) : Untouched call after content := by
    cases Option.some.inj (before.symm.trans here)
    exact quiet rfl
  have one {e : Nat} {y z : Call T} (there : s.calls[e]? = some y) (now : (s.calls.set e z)[c]? = some after)
      (does : after = z → call = y → Untouched call after content) : Untouched call after content := by
    rcases setFound now with ⟨rfl,rfl⟩ | ⟨_,here⟩
    · exact does rfl (Option.some.inj (before.symm.trans there))
    · exact same here
  cases does with
  | write | push | done | leaves | takePush | pushed | asked | asks => exact same found
  | call kind =>
    rcases concatFrom found with here | ⟨long,_⟩
    · exact same here
    · exact absurd (List.getElem?_eq_some_iff.mp before).1 (by omega)
  | takeFollow there => exact one there found (fun new old => quiet (by rw [new,old]))
  | fails held there => exact one there found (fun new old => quiet (by rw [new,old]; rfl))
  | listens held there => exact one there found (fun new old => quiet (by rw [new,old]; rfl))
  | tells ended held there => exact one there found (fun new old => quiet (by rw [new,old]))
  | locks held there => exact one there found (fun new old => quiet (by rw [new,old]))
  | joins held there => exact one there found (fun new old => quiet (by rw [new,old]; rfl))
  | panics there => exact one there found (fun new old => quiet (by rw [new,old]))
  | refuses there => exact one there found (fun new old => quiet (by rw [new,old]))
  | unfollows there => exact one there found (fun new old => quiet (by rw [new,old]; rfl))
  | @changes _ _ _ k _ _ panics v events ended held there becomes =>
    refine one there found (fun new old => ?_)
    subst new old
    obtain ⟨rfl,rfl⟩ : k = content ∧ events = calls := by
      have tails := List.append_cancel_left log
      injection tails with head tail
      injection head with head
      exact ⟨head,tail⟩
    obtain ⟨e,unchanged⟩ : ∃ e, changed env (fun fn => if fn ∈ panics then .panics else .returns) call.value _ =
        (call.value,[],e) := changedRefuses bad
    cases unchanged.symm.trans becomes
    exact ⟨rfl,rfl,rfl,rfl⟩
  | loads there here good =>
    refine one there found (fun new old => ?_)
    subst new old
    have tails := List.append_cancel_left log
    injection tails with head
    injection head with head
    subst head
    obtain ⟨cur,accepted,_⟩ := loadAccepts good
    exact absurd (bad.symm.trans accepted) (Option.some_ne_none _).symm
  | hooks there =>
    refine one there found (fun new old => ?_)
    subst new old
    have tails := List.append_cancel_left log
    injection tails with head
    simp only [reduceCtorEq] at head

theorem lastGood (env : Env T) (start : Content) (as : List Action) (s : State T)
    (ok : run (step env) (State.init start) as = some s) :
    (∀ (c : Nat) (call : Call T), s.calls[c]? = some call → call.watch = true → call.point = .returned →
      LastGood env call) ∧
    ∀ (a : Action) (t : State T) (c : Nat) (call after : Call T) (content : Content), step env s a = some t →
      s.calls[c]? = some call → t.calls[c]? = some after → Handed call after content →
      accepts env content = none → Untouched call after content := by
  have inv : Steady env s :=
    runKeeps (fun inv _ one => steadyStep inv (stepDoes one)) (steadyStart start) (alongTrue _ _) ok
  exact ⟨fun c call found watch here => soundLast (inv.sound c call found watch) here,
    fun a t c call after content one before found handed bad =>
      refusedStep (stepDoes one) before found handed bad⟩

def checked : Env Content := ⟨"raw",fun _ _ content => .ok content,
  some (fun cur => if cur = [98,97,100] then .refused "bad" else if cur = [98,111,111,109] then .panics else .valid cur),
  fun _ _ => .leaf ""⟩

def pushed (content : Content) : List Action :=
  [.write content,.push content,.takePush 0,.fetch true,.tell .returns,.lock,.change [0],.done]

def followed : List Action :=
  [.watch,.takeFollow 0,.fetch true,.listen true,.load 0,.hook 0,.hook 0] ++ pushed [98] ++ pushed [32] ++
    pushed [98,97,100] ++ pushed [98,111,111,109]

set_option maxRecDepth 8000 in
theorem followedGood : ∃ s, run (step checked) (State.init [97]) followed = some s ∧
    (s.calls[0]?).map (fun call => call.value.cur) = some (some [98]) ∧
    (s.calls[0]?).map (fun call => callsOf 1 call.log) = some [(some [97],[98])] ∧
    ∀ call, s.calls[0]? = some call → LastGood checked call := by
  have kinds : (run (step checked) (State.init [97]) followed).map (fun s =>
      (s.calls[0]?).map (fun call => (call.watch,call.point))) = some (some (true,.returned)) := by decide
  have values : (run (step checked) (State.init [97]) followed).map (fun s =>
      (s.calls[0]?).map (fun call => call.value.cur)) = some (some (some [98])) := by decide
  have calls : (run (step checked) (State.init [97]) followed).map (fun s =>
      (s.calls[0]?).map (fun call => callsOf 1 call.log)) = some (some [(some [97],[98])]) := by decide
  obtain ⟨s,ok,kind⟩ := Option.map_eq_some_iff.mp kinds
  rw [ok,Option.map_some] at values calls
  refine ⟨s,ok,Option.some.inj values,Option.some.inj calls,fun call found => ?_⟩
  rw [found] at kind
  obtain ⟨watch,point⟩ := Prod.mk.inj (Option.some.inj kind)
  exact (lastGood checked [97] followed s ok).1 0 call found watch point

end DevkitCommon.Nacosx
