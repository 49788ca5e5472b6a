import DevkitCommon.Nacosx.Config

/-! What each step of the followers of a configuration does. -/
namespace DevkitCommon.Nacosx
open Machine
variable {T : Type}

section Does
variable (env : Env T) (s : State T)

inductive Does : Action → State T → Prop where
  | write (content : Content) : Does (.write content) {s with history := s.history ++ [content]}
  | push (pushed : Content) :
      Does (.push pushed) {s with pushes := s.pushes ++ [(s.version,pushed)],sent := s.version}
  | call {a} (watch : Bool) : Does a {s with calls := s.calls ++ [Call.start watch]}
  | takePush {i p} (found : s.pushes[i]? = some p) (free : s.w.mu = none) :
      Does (.takePush i) ({s with pushes := s.pushes.eraseIdx i}.hold (some ⟨.push p.1 p.2,.fetch⟩))
  | takeFollow {c call} (found : s.calls[c]? = some call) (free : s.w.mu = none) (here : call.point = .follow) :
      Does (.takeFollow c) ((s.setCall c {call with point := .inside}).hold (some ⟨.follow c,.fetch⟩))
  | pushed {sent pushed} (ok : Bool) (held : s.w.mu = some ⟨.push sent pushed,.fetch⟩) :
      Does (.fetch ok) ({s with read := if ok then some s.version else s.read}.applied (.push sent pushed)
        (if ok then s.server else pushed))
  | asked {c call} (held : s.w.mu = some ⟨.follow c,.fetch⟩) (found : s.calls[c]? = some call)
      (listening : s.w.listening = true) :
      Does (.fetch true) ({s with read := some s.version}.applied (.follow c) s.server)
  | asks {c call} (held : s.w.mu = some ⟨.follow c,.fetch⟩) (found : s.calls[c]? = some call)
      (listening : s.w.listening = false) :
      Does (.fetch true) {s with
        read := some s.version
        w := {s.w with
          content := s.server
          sum := Nacosx.sum s.server
          mu := some ⟨.follow c,.listen s.server s.version⟩}}
  | fails {a c call stage} (held : s.w.mu = some ⟨.follow c,stage⟩) (found : s.calls[c]? = some call)
      (early : stage = .fetch ∨ ∃ content version, stage = .listen content version) :
      Does a ((s.setCall c call.fails).hold none)
  | listens {c call content version} (held : s.w.mu = some ⟨.follow c,.listen content version⟩)
      (found : s.calls[c]? = some call) :
      Does (.listen true) ({s with w := {s.w with listening := true,subs := s.w.subs ++ [c],mu := none}}.setCall c
        (call.joins content version))
  | tells {caller c call content version rest turn} (ended : Ended)
      (held : s.w.mu = some ⟨caller,.tell content version (c::rest) .next⟩) (found : s.calls[c]? = some call)
      (after : turn = if call.watch then .tell content version (c::rest) .waits else .tell content version rest .next) :
      Does (.tell ended) ((s.setCall c {call with heard := call.heard ++ [(version,content)]}).hold (some ⟨caller,turn⟩))
  | locks {caller c call content version rest}
      (held : s.w.mu = some ⟨caller,.tell content version (c::rest) .waits⟩) (found : s.calls[c]? = some call)
      (free : call.value.mu = none) :
      Does .lock ((s.setCall c {call with value := {call.value with mu := some .told}}).hold
        (some ⟨caller,.tell content version (c::rest) .locked⟩))
  | changes {caller c call content version rest panics v calls ended}
      (held : s.w.mu = some ⟨caller,.tell content version (c::rest) .locked⟩) (found : s.calls[c]? = some call)
      (becomes : changed env (fun fn => if fn ∈ panics then .panics else .returns) call.value content = (v,calls,ended)) :
      Does (.change panics) ((s.setCall c {call with
        value := {v with mu := none}
        log := call.log ++ .content content::calls}).hold (some ⟨caller,.tell content version rest .next⟩))
  | done {sent pushed content version} (held : s.w.mu = some ⟨.push sent pushed,.tell content version [] .next⟩) :
      Does .done (s.hold none)
  | joins {c call content version} (held : s.w.mu = some ⟨.follow c,.tell content version [] .next⟩)
      (found : s.calls[c]? = some call) :
      Does .done ({s with w := {s.w with subs := s.w.subs ++ [c],mu := none}}.setCall c (call.joins content version))
  | loads {c call content v} (found : s.calls[c]? = some call) (here : call.point = .load content)
      (good : load env call.value content = .ok v) :
      Does (.load c) (s.setCall c {call with
        point := .returned
        value := {v with mu := none}
        log := call.log ++ [.content content]})
  | panics {c call content} (found : s.calls[c]? = some call) (here : call.point = .load content)
      (bad : load env call.value content = .panics) :
      Does (.load c) (s.setCall c {call with point := .panicked,value := {call.value with mu := none}})
  | refuses {c call content} (found : s.calls[c]? = some call) (here : call.point = .load content)
      (bad : load env call.value content = .missing ∨ ∃ why, load env call.value content = .err why) :
      Does (.load c) (s.setCall c {call with point := .unfollow})
  | unfollows {c call} (found : s.calls[c]? = some call) (free : s.w.mu = none) (here : call.point = .unfollow) :
      Does (.unfollow c) ({s with w := {s.w with subs := s.w.subs.erase c}}.setCall c call.fails)
  | leaves {c call} (found : s.calls[c]? = some call) (free : s.w.mu = none) (here : call.point = .returned) :
      Does (.leave c) {s with w := {s.w with subs := s.w.subs.erase c}}
  | hooks {c call} (found : s.calls[c]? = some call) (watch : call.watch = true) (here : call.point = .returned)
      (free : call.value.mu = none) :
      Does (.hook c) (s.setCall c {call with
        value := call.value.onChange
        log := call.log ++ [.registered call.value.hooks.length]})

end Does

variable {env : Env T} {s t : State T} {a : Action}

theorem stepDoes (one : step env s a = some t) : Does env s a t := by
  cases a <;> simp only [step,bind,Option.bind_eq_some_iff,Option.some.injEq] at one
  case write content => subst one; exact .write content
  case push pushed => subst one; exact .push pushed
  case watch => subst one; exact .call true
  case onChange => subst one; exact .call false
  case takePush i =>
    obtain ⟨p,found,last⟩ := one
    split at last <;> try contradiction
    rename_i free
    cases Option.some.inj last
    exact .takePush found free
  case takeFollow c =>
    obtain ⟨call,found,last⟩ := one
    split at last <;> try contradiction
    rename_i here
    cases Option.some.inj last
    exact .takeFollow found here.1 here.2
  case fetch ok =>
    obtain ⟨⟨caller,stage⟩,held,last⟩ := one
    dsimp only at last
    split at last <;> try contradiction
    · cases Option.some.inj last
      exact .pushed ok held
    · obtain ⟨call,found,move⟩ := Option.bind_eq_some_iff.mp last
      cases ok with
      | false =>
        cases Option.some.inj move
        exact .fails held found (.inl rfl)
      | true =>
        rw [if_neg (Bool.noConfusion : ¬true = false)] at move
        split at move
        · rename_i listening
          cases Option.some.inj move
          exact .asked held found listening
        · rename_i deaf
          cases Option.some.inj move
          exact .asks held found (eq_false_of_ne_true deaf)
  case listen ok =>
    obtain ⟨⟨caller,stage⟩,held,last⟩ := one
    dsimp only at last
    split at last <;> try contradiction
    obtain ⟨call,found,move⟩ := Option.bind_eq_some_iff.mp last
    cases ok with
    | true =>
      cases Option.some.inj move
      exact .listens held found
    | false =>
      cases Option.some.inj move
      exact .fails held found (.inr ⟨_,_,rfl⟩)
  case tell ended =>
    obtain ⟨⟨caller,stage⟩,held,last⟩ := one
    dsimp only at last
    split at last <;> try contradiction
    obtain ⟨call,found,move⟩ := Option.bind_eq_some_iff.mp last
    split at move
    · rename_i watch
      cases Option.some.inj move
      exact .tells ended held found (if_pos watch).symm
    · rename_i plain
      cases Option.some.inj move
      exact .tells ended held found (if_neg plain).symm
  case lock =>
    obtain ⟨⟨caller,stage⟩,held,last⟩ := one
    dsimp only at last
    split at last <;> try contradiction
    obtain ⟨call,found,move⟩ := Option.bind_eq_some_iff.mp last
    split at move <;> try contradiction
    rename_i free
    cases Option.some.inj move
    exact .locks held found free
  case change panics =>
    obtain ⟨⟨caller,stage⟩,held,last⟩ := one
    dsimp only at last
    split at last <;> try contradiction
    obtain ⟨call,found,move⟩ := Option.bind_eq_some_iff.mp last
    cases Option.some.inj move
    exact .changes held found rfl
  case done =>
    obtain ⟨⟨caller,stage⟩,held,last⟩ := one
    dsimp only at last
    split at last <;> try contradiction
    · cases Option.some.inj last
      exact .done held
    · obtain ⟨call,found,move⟩ := Option.bind_eq_some_iff.mp last
      cases Option.some.inj move
      exact .joins held found
  case load c =>
    obtain ⟨call,found,last⟩ := one
    split at last <;> try contradiction
    rename_i content here
    split at last <;> cases Option.some.inj last
    · rename_i v good
      exact .loads found here good
    · rename_i bad
      exact .panics found here bad
    · rename_i bad
      exact .refuses found here (.inl bad)
    · rename_i why bad
      exact .refuses found here (.inr ⟨why,bad⟩)
  case unfollow c =>
    obtain ⟨call,found,last⟩ := one
    split at last <;> try contradiction
    rename_i here
    cases Option.some.inj last
    exact .unfollows found here.1 here.2
  case leave c =>
    obtain ⟨call,found,last⟩ := one
    split at last <;> try contradiction
    rename_i here
    cases Option.some.inj last
    exact .leaves found here.1 here.2
  case hook c =>
    obtain ⟨call,found,last⟩ := one
    split at last <;> try contradiction
    rename_i here
    cases Option.some.inj last
    exact .hooks found here.1 here.2.1 here.2.2

theorem appliedSubs {caller : Caller} {content : Content} : (s.applied caller content).w.subs = s.w.subs := by
  unfold State.applied apply
  split <;> rfl

theorem appliedListening {caller : Caller} {content : Content} :
    (s.applied caller content).w.listening = s.w.listening := by
  unfold State.applied apply
  split <;> rfl

theorem appliedSum {caller : Caller} {content : Content} : (s.applied caller content).w.sum = sum content := by
  unfold State.applied apply
  split
  · rename_i same
    exact same.symm
  · rfl

theorem appliedMu (s : State T) (caller : Caller) (content : Content) :
    sum content = s.w.sum ∧ (s.applied caller content).w.mu = some ⟨caller,.tell content s.version [] .next⟩ ∨
      sum content ≠ s.w.sum ∧
        (s.applied caller content).w.mu = some ⟨caller,.tell content s.version s.w.subs .next⟩ := by
  unfold State.applied apply
  split
  · rename_i same
    exact .inl ⟨same,rfl⟩
  · rename_i changed
    exact .inr ⟨changed,rfl⟩

theorem joinsPoint {call : Call T} {content : Content} {version : Nat} :
    (call.joins content version).point ≠ .follow ∧ (call.joins content version).point ≠ .inside := by
  unfold Call.joins
  cases call.watch <;> simp

theorem callsStay {d : Nat} {y : Call T} (does : Does env s a t) (found : s.calls[d]? = some y) : ∃ x, t.calls[d]? = some x := by
  have short := (List.getElem?_eq_some_iff.mp found).1
  have long : d < t.calls.length := by
    cases does with
    | call watch => exact Nat.lt_of_lt_of_le short (by simp)
    | _ => first | exact short | exact Nat.lt_of_lt_of_eq short (List.length_set).symm
  exact ⟨_,List.getElem?_eq_getElem long⟩

theorem subsWent {c : Nat} (does : Does env s a t) (mem : c ∈ t.w.subs) :
    c ∈ s.w.subs ∨ ∃ x, t.calls[c]? = some x ∧ x.point ≠ .follow ∧ x.point ≠ .inside := by
  have joined {e : Nat} {y z : Call T} (there : s.calls[e]? = some y) (mem : c ∈ s.w.subs ++ [e])
      (out : z.point ≠ .follow ∧ z.point ≠ .inside) (after : t.calls = s.calls.set e z) :
      c ∈ s.w.subs ∨ ∃ x, t.calls[c]? = some x ∧ x.point ≠ .follow ∧ x.point ≠ .inside := by
    rcases List.mem_append.mp mem with old | new
    · exact .inl old
    · obtain rfl := List.mem_singleton.mp new
      have short := (List.getElem?_eq_some_iff.mp there).1
      exact .inr ⟨z,after ▸ List.getElem?_set_self short,out⟩
  cases does with
  | pushed ok held => exact .inl (appliedSubs ▸ mem)
  | asked held there listening => exact .inl (appliedSubs ▸ mem)
  | listens held there => exact joined there mem joinsPoint rfl
  | joins held there => exact joined there mem joinsPoint rfl
  | unfollows there => exact .inl (List.mem_of_mem_erase mem)
  | leaves there => exact .inl (List.mem_of_mem_erase mem)
  | _ => exact .inl mem

def Inside (s : State T) : Prop :=
  ∀ c stage, s.w.mu = some ⟨.follow c,stage⟩ → ∃ call, s.calls[c]? = some call ∧ call.point = .inside

theorem insideStart (start : Content) : Inside (State.init (T := T) start) :=
  fun _ _ held => absurd held.symm (Option.some_ne_none _)

theorem insideStep (inv : Inside s) (does : Does env s a t) : Inside t := by
  intro c stage held
  have one {e : Nat} {y z : Call T} {now : Stage} (before : s.w.mu = some ⟨.follow c,now⟩) (there : s.calls[e]? = some y)
      (same : z.point = y.point ∨ y.point ≠ .inside) : ∃ x, (s.calls.set e z)[c]? = some x ∧ x.point = .inside := by
    obtain ⟨call,found,inside⟩ := inv _ _ before
    rcases setStays (i := e) (a := z) found with ⟨rfl,after⟩ | ⟨_,after⟩
    · cases Option.some.inj (found.symm.trans there)
      exact ⟨z,after,(same.resolve_right (fun no => no inside)).trans inside⟩
    · exact ⟨call,after,inside⟩
  cases does with
  | write | push => exact inv c stage held
  | call kind =>
    obtain ⟨call,found,inside⟩ := inv c stage held
    exact ⟨call,concatStays found,inside⟩
  | takePush | fails | listens | done | joins =>
    simp only [State.hold,State.setCall,Option.some.injEq,Hold.mk.injEq,reduceCtorEq,false_and] at held
  | takeFollow there =>
    cases held
    exact ⟨_,List.getElem?_set_self (List.getElem?_eq_some_iff.mp there).1,rfl⟩
  | pushed ok before =>
    rcases appliedMu _ _ _ with ⟨_,mu⟩ | ⟨_,mu⟩ <;> cases mu.symm.trans held
  | asked before =>
    rcases appliedMu _ _ _ with ⟨_,mu⟩ | ⟨_,mu⟩ <;> cases mu.symm.trans held <;> exact inv _ _ before
  | asks before => cases held; exact inv _ _ before
  | tells ended before there => cases held; exact one before there (.inl rfl)
  | locks before there => cases held; exact one before there (.inl rfl)
  | changes before there => cases held; exact one before there (.inl rfl)
  | loads there here => exact one held there (.inr (by rw [here]; exact Point.noConfusion))
  | panics there here => exact one held there (.inr (by rw [here]; exact Point.noConfusion))
  | refuses there here => exact one held there (.inr (by rw [here]; exact Point.noConfusion))
  | unfollows there free => exact absurd (free.symm.trans held).symm (Option.some_ne_none _)
  | leaves there free => exact absurd (free.symm.trans held).symm (Option.some_ne_none _)
  | hooks there => exact one held there (.inl rfl)

theorem heldInside {c : Nat} {call : Call T} {stage : Stage} (inv : Inside s) (held : s.w.mu = some ⟨.follow c,stage⟩)
    (found : s.calls[c]? = some call) : call.point = .inside := by
  obtain ⟨y,here,inside⟩ := inv _ _ held
  cases Option.some.inj (found.symm.trans here)
  exact inside

def raw : Env Content := ⟨"raw",fun _ _ content => .ok content,none,fun _ _ => .leaf ""⟩

end DevkitCommon.Nacosx
