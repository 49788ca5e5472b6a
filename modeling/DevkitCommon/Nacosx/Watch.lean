import DevkitCommon.Nacosx.Naming
import Mathlib

/-! The record of the services that are alive. One goroutine lists the names and subscribes to
those that are new; Nacos pushes the instances of a service at any time, before and after the
first overview is out. What Nacos answers and pushes stands in the action. -/
namespace DevkitCommon.Nacosx.Watch
open Machine Objects Words Naming

structure ServiceState where
  name : Text
  alive : Nat
  instances : List Text
  unusable : Nat
  deriving DecidableEq

abbrev ServiceOverview := List ServiceState

def ServiceOverview.counts (o : ServiceOverview) : Nat × Nat := (o.length,(o.map ServiceState.alive).sum)

def usableOf (m : Known) : List Text := (m.list.filter Instance.usable).map Instance.addr

def alive (m : Known) : Nat := (usableOf m).length

def stateOf (name : Text) (m : Known) : Option ServiceState :=
  if usableOf m = [] then none
  else some ⟨name,alive m,usableOf m,(m.list.filter (fun i => !i.usable)).length⟩

def overview (known : Store Text Known) : ServiceOverview := known.entries.filterMap (fun e => stateOf e.1 e.2)

inductive Message where
  | alive
  | online
  | offline
  | changed
  deriving DecidableEq, Repr

def Message.text : Message → String
  | .alive => "services alive"
  | .online => "service online"
  | .offline => "service offline"
  | .changed => "service instances changed"

structure Record where
  message : Message
  name : Text
  alive : Nat
  services : Nat
  instances : Nat
  changed : List InstanceChange
  overview : ServiceOverview
  deriving DecidableEq

/- Where round is: before a page of names, or at the names of one, which is full or the last. -/
inductive Loop where
  | page (n : Nat)
  | names (n : Nat) (rest : List Text) (full : Bool)
  | ended (ok : Bool)
  deriving DecidableEq, Repr

/- subs are the names Nacos has taken a subscription of, listed those of the round so far; first
is the overview at the start and waiting the same until it is written. -/
structure State where
  subscribed : List Text
  subs : List Text
  listed : List Text
  loop : Loop
  known : Store Text Known
  ready : Bool
  first : ServiceOverview
  waiting : Option ServiceOverview
  records : List Record

def State.init : State := ⟨[],[],[],.page 1,Store.empty,false,[],none,[]⟩

inductive Action where
  | list (reply : Option (List Text))
  | skip
  | subscribe (ok : Bool)
  | push (name : Text) (list : List Instance)
  | overview
  | report
  | tick

def pageSize : Nat := 100

def before (s : State) (name : Text) : Known := (s.known.get name).getD Known.empty

def messageOf (old cur : Known) : Message :=
  if alive old = 0 ∧ 0 < alive cur then .online
  else if 0 < alive old ∧ alive cur = 0 then .offline
  else .changed

def noted (s : State) (name : Text) (cur : Known) : Record :=
  let o := overview (s.known.put name cur)
  ⟨messageOf (before s name) cur,name,alive cur,(ServiceOverview.counts o).1,(ServiceOverview.counts o).2,
    instanceDiff (before s name) cur,o⟩

def update (s : State) (name : Text) (list : List Instance) : State :=
  let cur := byAddr list
  let next := {s with known := s.known.put name cur}
  if s.ready = false ∨ instanceDiff (before s name) cur = [] then next
  else {next with records := next.records ++ [noted s name cur]}

def step (s : State) : Action → Option State
  | .list reply => match s.loop with
    | .page n => match reply with
      | none => some {s with loop := .ended false}
      | some doms => some {s with
          loop := .names n doms (decide (pageSize ≤ doms.length))
          listed := s.listed ++ doms}
    | _ => none
  | .skip => match s.loop with
    | .names n [] full => some {s with loop := if full then .page (n+1) else .ended true}
    | .names n (name::rest) full => if name ∈ s.subscribed then some {s with loop := .names n rest full} else none
    | _ => none
  | .subscribe ok => match s.loop with
    | .names n (name::rest) full =>
      if name ∈ s.subscribed then none
      else if ok then some {s with
        loop := .names n rest full
        subscribed := name::s.subscribed
        subs := s.subs ++ [name]}
      else some {s with loop := .ended false}
    | _ => none
  | .push name list => some (update s name list)
  | .overview => match s.loop with
    | .ended _ => if s.ready then none
      else some {s with
        ready := true
        first := overview s.known
        waiting := some (overview s.known)}
    | _ => none
  -- written after the lock is given back: the record of a push may be out before it
  | .report => match s.waiting with
    | some o => some {s with
        waiting := none
        records := s.records ++ [⟨.alive,[],0,(ServiceOverview.counts o).1,(ServiceOverview.counts o).2,[],o⟩]}
    | none => none
  | .tick => match s.loop with
    | .ended _ => if s.ready && s.waiting.isNone then some {s with loop := .page 1,listed := []} else none
    | _ => none

section Books

def told (s : State) : ServiceOverview :=
  ((s.records.filter (fun r => r.message ≠ .alive)).getLast?).elim s.first Record.overview

/- Who follows the records knows which services are up; none comes or goes twice. -/
def hear (up : Text → Bool) (r : Record) : Option (Text → Bool) :=
  match r.message with
  | .online => if up r.name then none else some (Function.update up r.name true)
  | .offline => if up r.name then some (Function.update up r.name false) else none
  | _ => some up

def namesOf (o : ServiceOverview) : List Text := o.map ServiceState.name

def heard (s : State) : Option (Text → Bool) :=
  s.records.foldlM hear (fun name => decide (name ∈ namesOf s.first))

structure Tells (s : State) : Prop where
  last : s.ready = true → told s = overview s.known
  follows : s.ready = true → ∃ up, heard s = some up ∧ ∀ name, up name = true ↔ name ∈ namesOf (overview s.known)
  quiet : s.ready = false → s.records = [] ∧ s.waiting = none
  taken : ∀ o ∈ s.waiting, o = s.first

structure Subscribed (s : State) : Prop where
  same : ∀ name, name ∈ s.subscribed ↔ name ∈ s.subs
  once : s.subs.Nodup
  page : ∀ n, s.loop = .page n → ∀ name ∈ s.listed, name ∈ s.subs
  names : ∀ n rest full, s.loop = .names n rest full → ∀ name ∈ s.listed, name ∈ s.subs ∨ name ∈ rest
  ended : s.loop = .ended true → ∀ name ∈ s.listed, name ∈ s.subs

end Books

section Overview
variable {name : Text} {m old cur : Known} {known : Store Text Known} {list : List Instance}

def usableCore (c : Weight × Bool × Bool) : Bool := c.2.1 && c.2.2 && c.1.positive

theorem usableCores (m : Known) : usableOf m = ((cores m.list).filter (fun e => usableCore e.2)).map Prod.fst := by
  rw [usableOf,cores,List.filter_map,List.map_map]
  rfl

theorem unusableCores (m : Known) :
    (m.list.filter (fun i => !i.usable)).length = ((cores m.list).filter (fun e => !usableCore e.2)).length := by
  rw [cores,List.filter_map,List.length_map]
  rfl

theorem stateSame (same : cores old.list = cores cur.list) : stateOf name old = stateOf name cur := by
  have addrs : usableOf old = usableOf cur := by rw [usableCores,usableCores,same]
  have count : (old.list.filter (fun i => !i.usable)).length = (cur.list.filter (fun i => !i.usable)).length := by
    rw [unusableCores,unusableCores,same]
  rw [stateOf,stateOf,alive,alive,addrs,count]

theorem insertSame {κ β γ : Type} [LinearOrder κ] {f : κ × β → Option γ} {k : κ} {b : β} {l : List (κ × β)}
    (ordered : Objects.Ordered l) (same : f (k,b) = (l.lookup k).bind (fun c => f (k,c))) :
    (Objects.insert k b l).filterMap f = l.filterMap f := by
  induction l with
  | nil =>
    rw [Objects.insert,List.filterMap_cons]
    have none' : f (k,b) = none := same
    rw [none']
  | cons e rest ih =>
    obtain ⟨above,tail⟩ := List.pairwise_cons.mp ordered
    rw [Objects.insert]
    split
    · rename_i less
      have absent : (e::rest).lookup k = none := by
        refine List.lookup_eq_none_iff.mpr (fun a mem => ?_)
        obtain rfl | mem := List.mem_cons.mp mem
        · simpa using ne_of_lt less
        · simpa using ne_of_lt (less.trans (above a mem))
      rw [absent,Option.bind_none] at same
      rw [List.filterMap_cons,same]
    · split
      · rename_i here
        subst here
        rw [List.lookup_cons,beq_self_eq_true] at same
        have same : f (e.1,b) = f (e.1,e.2) := same
        rw [List.filterMap_cons,List.filterMap_cons,same]
      · rename_i other
        rw [List.lookup_cons,beq_eq_false_iff_ne.mpr other] at same
        rw [List.filterMap_cons,List.filterMap_cons,ih tail same]

theorem stateNone : stateOf name Known.empty = none := rfl

theorem overviewPut (same : stateOf name cur = stateOf name ((known.get name).getD Known.empty)) :
    overview (known.put name cur) = overview known := by
  have found : stateOf name cur = (known.get name).bind (fun m => stateOf name m) := by
    rw [same]
    cases known.get name with
    | none => exact stateNone
    | some m => rfl
  exact insertSame (f := fun e => stateOf e.1 e.2) known.ordered found

theorem stateName {st : ServiceState} (is : stateOf name m = some st) : st.name = name := by
  unfold stateOf at is
  split at is <;> try contradiction
  rw [← Option.some.inj is]

theorem memNames : name ∈ namesOf (overview known) ↔ ∃ m, known.get name = some m ∧ 0 < alive m := by
  rw [namesOf,List.mem_map]
  constructor
  · rintro ⟨st,mem,rfl⟩
    obtain ⟨e,inside,is⟩ := List.mem_filterMap.mp mem
    have key := stateName is
    refine ⟨e.2,Store.getIff.mpr (by rw [key]; exact inside),?_⟩
    unfold stateOf at is
    split at is <;> try contradiction
    rename_i some'
    exact List.length_pos_of_ne_nil some'
  · rintro ⟨m,found,some'⟩
    have is : stateOf name m = some ⟨name,alive m,usableOf m,(m.list.filter (fun i => !i.usable)).length⟩ :=
      if_neg (List.ne_nil_of_length_pos some')
    exact ⟨_,List.mem_filterMap.mpr ⟨(name,m),Store.getIff.mp found,is⟩,rfl⟩

theorem getPut {β : Type} {known : Store Text β} {k j : Text} {b : β} :
    (known.put k b).get j = if j = k then some b else known.get j := by
  refine Option.ext (fun c => ?_)
  rw [Store.getIff,Store.memPut]
  split
  · rename_i same
    constructor
    · rintro (⟨-,rfl⟩ | ⟨other,-⟩)
      · rfl
      · exact absurd same other
    · exact fun is => .inl ⟨same,(Option.some.inj is).symm⟩
  · rename_i other
    rw [Store.getIff]
    exact ⟨fun found => (found.resolve_left (fun both => other both.1)).2,fun found => .inr ⟨other,found⟩⟩

end Overview

section Records
variable {s t : State} {a : Action} {name : Text} {list : List Instance}

theorem aliveBefore : 0 < alive (before s name) ↔ name ∈ namesOf (overview s.known) := by
  rw [memNames,before]
  cases found : s.known.get name with
  | none => exact iff_of_false (by decide) (fun ⟨m,is,_⟩ => nomatch is)
  | some m => exact ⟨fun some' => ⟨m,rfl,some'⟩,fun ⟨_,is,some'⟩ => Option.some.inj is ▸ some'⟩

theorem upPut {other : Text} {cur : Known} : other ∈ namesOf (overview (s.known.put name cur)) ↔
    if other = name then 0 < alive cur else other ∈ namesOf (overview s.known) := by
  rw [memNames,getPut]
  split
  · exact ⟨fun ⟨_,is,some'⟩ => Option.some.inj is ▸ some',fun some' => ⟨cur,rfl,some'⟩⟩
  · rw [memNames]

theorem hearChange {up : Text → Bool} {cur : Known} {r : Record} (follows : ∀ n, up n = true ↔ n ∈ namesOf (overview s.known))
    (message : r.message = messageOf (before s name) cur) (is : r.name = name) :
    ∃ next, hear up r = some next ∧ ∀ n, next n = true ↔ n ∈ namesOf (overview (s.known.put name cur)) := by
  have was := (follows name).trans aliveBefore.symm
  have updated (b : Bool) (now : b = true ↔ 0 < alive cur) (n : Text) :
      Function.update up name b n = true ↔ n ∈ namesOf (overview (s.known.put name cur)) := by
    rw [upPut]
    split
    · rename_i same
      rw [same,Function.update_self,now]
    · rename_i other
      rw [Function.update_of_ne other,follows]
  by_cases comes : alive (before s name) = 0 ∧ 0 < alive cur
  · have said : r.message = .online := message.trans (if_pos comes)
    have down : up name = false := eq_false_of_ne_true (fun there => by have := was.mp there; omega)
    refine ⟨Function.update up name true,?_,updated true (iff_of_true rfl comes.2)⟩
    simp only [hear,said,is,down,Bool.false_eq_true,if_false]
  · by_cases goes : 0 < alive (before s name) ∧ alive cur = 0
    · have said : r.message = .offline := message.trans ((if_neg comes).trans (if_pos goes))
      have there : up name = true := was.mpr goes.1
      refine ⟨Function.update up name false,?_,updated false (iff_of_false Bool.false_ne_true (by omega))⟩
      simp only [hear,said,is,there,if_true]
    · have said : r.message = .changed := message.trans ((if_neg comes).trans (if_neg goes))
      refine ⟨up,by simp only [hear,said],fun n => ?_⟩
      have same : Function.update up name (up name) = up := Function.update_eq_self name up
      rw [← same]
      exact updated (up name) (was.trans (by omega)) n

theorem toldSame {known : Store Text Known} : told {s with known := known} = told s := rfl

theorem tellsUpdate (inv : Tells s) : Tells (update s name list) := by
  unfold update
  simp only
  split
  · rename_i calm
    have same (ready : s.ready = true) : overview (s.known.put name (byAddr list)) = overview s.known := by
      have none' : instanceDiff (before s name) (byAddr list) = [] :=
        calm.resolve_left (fun early => Bool.false_ne_true (early.symm.trans ready))
      exact overviewPut (stateSame (diffNil none')).symm
    refine ⟨fun ready => ?_,fun ready => ?_,inv.quiet,inv.taken⟩
    · rw [toldSame,inv.last ready,same ready]
    · obtain ⟨up,ok,follows⟩ := inv.follows ready
      exact ⟨up,ok,fun n => by rw [follows,same ready]⟩
  · rename_i news
    obtain ⟨ready,-⟩ := not_or.mp news
    have ready : s.ready = true := eq_true_of_ne_false ready
    obtain ⟨up,ok,follows⟩ := inv.follows ready
    refine ⟨fun _ => ?_,fun _ => ?_,fun early => absurd (early.symm.trans ready) Bool.false_ne_true,inv.taken⟩
    · have counts : (noted s name (byAddr list)).message ≠ .alive := by
        unfold noted messageOf
        simp only
        split
        · exact Message.noConfusion
        · split <;> exact Message.noConfusion
      rw [told,List.filter_append,List.filter_cons_of_pos (by simpa using counts),List.filter_nil,List.getLast?_concat]
      rfl
    · obtain ⟨next,heard',follows'⟩ := hearChange follows (r := noted s name (byAddr list)) rfl rfl
      refine ⟨next,?_,follows'⟩
      rw [heard,List.foldlM_append]
      have ok : s.records.foldlM hear (fun n => decide (n ∈ namesOf s.first)) = some up := ok
      simp only [ok,bind,Option.bind_some,List.foldlM_cons,List.foldlM_nil,heard']
      rfl

theorem tellsStep (inv : Tells s) (one : step s a = some t) : Tells t := by
  have loop {l : Loop} {listed subscribed subs : List Text} : Tells {s with
      loop := l,listed := listed,subscribed := subscribed,subs := subs} :=
    ⟨inv.last,inv.follows,inv.quiet,inv.taken⟩
  cases a with
  | push name list =>
    cases Option.some.inj one
    exact tellsUpdate inv
  | list reply =>
    simp only [step] at one
    split at one <;> try contradiction
    split at one <;> cases Option.some.inj one <;> exact loop
  | skip =>
    simp only [step] at one
    split at one <;> try contradiction
    · cases Option.some.inj one
      exact loop
    · split at one <;> try contradiction
      cases Option.some.inj one
      exact loop
  | subscribe ok =>
    simp only [step] at one
    split at one <;> try contradiction
    split at one <;> try contradiction
    split at one <;> cases Option.some.inj one <;> exact loop
  | tick =>
    simp only [step] at one
    split at one <;> try contradiction
    split at one <;> try contradiction
    cases Option.some.inj one
    exact loop
  | overview =>
    simp only [step] at one
    split at one <;> try contradiction
    split at one <;> try contradiction
    rename_i early
    cases Option.some.inj one
    obtain ⟨none',-⟩ := inv.quiet (eq_false_of_ne_true early)
    refine ⟨fun _ => ?_,fun _ => ⟨_,by rw [heard,none']; rfl,fun n => decide_eq_true_iff⟩,nofun,fun o is => ?_⟩
    · rw [told,none']
      rfl
    · exact (Option.some.inj is).symm
  | report =>
    simp only [step] at one
    split at one <;> try contradiction
    rename_i o waits
    cases Option.some.inj one
    have ready : s.ready = true := by
      refine eq_true_of_ne_false (fun early => ?_)
      rw [(inv.quiet early).2] at waits
      contradiction
    refine ⟨fun _ => ?_,fun _ => ?_,fun early => absurd (early.symm.trans ready) Bool.false_ne_true,nofun⟩
    · rw [← inv.last ready,told,told,List.filter_append,List.filter_cons_of_neg (by simp),List.filter_nil,
        List.append_nil]
    · obtain ⟨up,ok,follows⟩ := inv.follows ready
      refine ⟨up,?_,follows⟩
      rw [heard,List.foldlM_append]
      have ok : s.records.foldlM hear (fun n => decide (n ∈ namesOf s.first)) = some up := ok
      simp only [ok,bind,Option.bind_some]
      rfl

theorem subscribedStep (inv : Subscribed s) (one : step s a = some t) : Subscribed t := by
  cases a with
  | push name list =>
    cases Option.some.inj one
    unfold update
    simp only
    split <;> exact ⟨inv.same,inv.once,inv.page,inv.names,inv.ended⟩
  | list reply =>
    simp only [step] at one
    split at one <;> try contradiction
    rename_i n here
    split at one <;> cases Option.some.inj one
    · exact ⟨inv.same,inv.once,nofun,nofun,nofun⟩
    · refine ⟨inv.same,inv.once,nofun,fun n' rest full at' name mem => ?_,nofun⟩
      cases at'
      exact (List.mem_append.mp mem).imp_left (inv.page n here name)
  | skip =>
    simp only [step] at one
    split at one <;> try contradiction
    · rename_i n full here
      cases Option.some.inj one
      have all (name : Text) (mem : name ∈ s.listed) : name ∈ s.subs :=
        (inv.names n [] full here name mem).resolve_right List.not_mem_nil
      cases full with
      | true => exact ⟨inv.same,inv.once,fun _ _ => all,nofun,nofun⟩
      | false => exact ⟨inv.same,inv.once,nofun,nofun,fun _ => all⟩
    · rename_i n first rest full here
      split at one <;> try contradiction
      rename_i taken
      cases Option.some.inj one
      refine ⟨inv.same,inv.once,nofun,fun n' rest' full' at' name mem => ?_,nofun⟩
      cases at'
      rcases inv.names n (first::rest) full here name mem with there | ahead
      · exact .inl there
      · rcases List.mem_cons.mp ahead with rfl | later
        · exact .inl ((inv.same _).mp taken)
        · exact .inr later
  | subscribe ok =>
    simp only [step] at one
    split at one <;> try contradiction
    rename_i n first rest full here
    split at one <;> try contradiction
    rename_i fresh
    split at one <;> cases Option.some.inj one
    · refine ⟨fun name => ?_,?_,nofun,fun n' rest' full' at' name mem => ?_,nofun⟩
      · rw [List.mem_cons,List.mem_append,List.mem_singleton,inv.same,or_comm]
      · refine List.nodup_append.mpr ⟨inv.once,List.nodup_singleton first,fun name mem other last same => ?_⟩
        rw [List.mem_singleton.mp last] at same
        exact fresh ((inv.same first).mpr (same ▸ mem))
      · cases at'
        rcases inv.names n (first::rest) full here name mem with there | ahead
        · exact .inl (List.mem_append_left _ there)
        · rcases List.mem_cons.mp ahead with rfl | later
          · exact .inl (List.mem_append_right _ (List.mem_singleton.mpr rfl))
          · exact .inr later
    · exact ⟨inv.same,inv.once,nofun,nofun,nofun⟩
  | tick =>
    simp only [step] at one
    split at one <;> try contradiction
    split at one <;> try contradiction
    cases Option.some.inj one
    exact ⟨inv.same,inv.once,fun _ _ name mem => absurd mem List.not_mem_nil,nofun,nofun⟩
  | overview =>
    simp only [step] at one
    split at one <;> try contradiction
    split at one <;> try contradiction
    cases Option.some.inj one
    exact ⟨inv.same,inv.once,inv.page,inv.names,inv.ended⟩
  | report =>
    simp only [step] at one
    split at one <;> try contradiction
    cases Option.some.inj one
    exact ⟨inv.same,inv.once,inv.page,inv.names,inv.ended⟩

section Pushes
variable {as : List Action} {m : Known} {addr : Text}

def pushOf (name : Text) : Action → Option (List Instance)
  | .push n list => if n = name then some list else none
  | _ => none

def pushed (as : List Action) (name : Text) : List Instance := ((as.filterMap (pushOf name)).getLast?).getD []

def Usable (list : List Instance) (addr : Text) : Prop :=
  ∃ i, (list.filter (fun i => i.addr = addr)).getLast? = some i ∧ i.usable = true

structure Shows (o : ServiceOverview) (last : Text → List Instance) : Prop where
  sorted : o.Pairwise (fun a b => a.name < b.name)
  names : ∀ name, name ∈ namesOf o ↔ ∃ addr, Usable (last name) addr
  instances : ∀ st ∈ o, st.instances.Pairwise (· < ·) ∧ ∀ addr, addr ∈ st.instances ↔ Usable (last st.name) addr
  counted : ∀ st ∈ o, st.alive = st.instances.length

theorem byAddrGet (list : List Instance) (addr : Text) :
    (byAddr list).store.get addr = (list.filter (fun i => i.addr = addr)).getLast? := by
  induction list using List.reverseRecOn with
  | nil => rfl
  | append_singleton list i ih =>
    have last : byAddr (list ++ [i]) = (byAddr list).put i := by rw [byAddr,List.foldl_append]; rfl
    rw [last,Known.put,getPut,List.filter_append,ih]
    by_cases same : i.addr = addr
    · rw [if_pos same.symm,List.filter_cons_of_pos (by simpa using same),List.filter_nil,List.getLast?_concat]
    · rw [if_neg (fun other => same other.symm),List.filter_cons_of_neg (by simpa using same),List.filter_nil,
        List.append_nil]

theorem memUsable : addr ∈ usableOf m ↔ ∃ i, m.store.get addr = some i ∧ i.usable = true := by
  rw [usableOf,List.mem_map]
  constructor
  · rintro ⟨i,mem,rfl⟩
    obtain ⟨inside,fine⟩ := List.mem_filter.mp mem
    obtain ⟨e,entry,rfl⟩ := List.mem_map.mp inside
    exact ⟨e.2,Store.getIff.mpr (by rw [m.keyed e entry]; exact entry),fine⟩
  · rintro ⟨i,found,fine⟩
    have entry := Store.getIff.mp found
    exact ⟨i,List.mem_filter.mpr ⟨List.mem_map.mpr ⟨_,entry,rfl⟩,fine⟩,m.keyed _ entry⟩

theorem usableSorted (m : Known) : (usableOf m).Pairwise (· < ·) := by
  rw [usableOf,Known.list,List.filter_map,List.map_map,List.pairwise_map]
  refine (m.store.ordered.filter _).imp_of_mem fun {a b} first second less => ?_
  rw [Function.comp_apply,Function.comp_apply,m.keyed a (List.mem_of_mem_filter first),
    m.keyed b (List.mem_of_mem_filter second)]
  exact less

theorem knownStep (one : step s a = some t) (name : Text) :
    before t name = ((pushOf name a).map byAddr).getD (before s name) := by
  cases a with
  | push n list =>
    cases Option.some.inj one
    have put : (update s n list).known = s.known.put n (byAddr list) := by
      unfold update
      simp only
      split <;> rfl
    rw [before,put,getPut,pushOf]
    by_cases same : n = name
    · rw [if_pos same.symm,if_pos same]
      rfl
    · rw [if_neg (fun other => same other.symm),if_neg same]
      rfl
  | list reply =>
    simp only [step] at one
    split at one <;> try contradiction
    split at one <;> cases Option.some.inj one <;> rfl
  | skip =>
    simp only [step] at one
    split at one <;> try contradiction
    · cases Option.some.inj one
      rfl
    · split at one <;> cases one
      rfl
  | subscribe ok =>
    simp only [step] at one
    split at one <;> try contradiction
    split at one <;> try contradiction
    split at one <;> cases Option.some.inj one <;> rfl
  | overview | tick =>
    simp only [step] at one
    split at one <;> try contradiction
    split at one <;> cases one
    rfl
  | report =>
    simp only [step] at one
    split at one <;> cases one
    rfl

theorem knownPushed (ok : run step State.init as = some s) (name : Text) : before s name = byAddr (pushed as name) := by
  induction as using List.reverseRecOn generalizing s with
  | nil =>
    cases Option.some.inj ok
    rfl
  | append_singleton as a ih =>
    obtain ⟨t,front,back⟩ := (runAppend as [a]).mp ok
    obtain ⟨u,one,last⟩ := runCons.mp back
    cases Option.some.inj last
    rw [knownStep one,ih front,pushed,pushed,List.filterMap_append]
    cases here : pushOf name a with
    | none => rw [List.filterMap_cons_none here,List.filterMap_nil,List.append_nil,Option.map_none,Option.getD_none]
    | some list =>
      rw [List.filterMap_cons_some here,List.filterMap_nil,List.getLast?_concat,Option.map_some,Option.getD_some,
        Option.getD_some]

theorem upPushed (ok : run step State.init as = some s) (addr : Text) :
    addr ∈ usableOf (before s name) ↔ Usable (pushed as name) addr := by
  rw [knownPushed ok,memUsable,byAddrGet]
  rfl

theorem overviewShows (ok : run step State.init as = some s) : Shows (overview s.known) (pushed as) := by
  have entry {st : ServiceState} (mem : st ∈ overview s.known) :
      st.instances = usableOf (before s st.name) ∧ st.alive = st.instances.length := by
    obtain ⟨e,inside,is⟩ := List.mem_filterMap.mp mem
    have key := stateName is
    have found : s.known.get st.name = some e.2 := Store.getIff.mpr (by rw [key]; exact inside)
    rw [before,found,Option.getD_some]
    unfold stateOf at is
    split at is <;> try contradiction
    cases Option.some.inj is
    exact ⟨rfl,rfl⟩
  refine ⟨?_,fun name => ?_,fun st mem => ?_,fun st mem => (entry mem).2⟩
  · refine List.Pairwise.filterMap _ (fun a b less st is st' is' => ?_) s.known.ordered
    rw [stateName is,stateName is']
    exact less
  · rw [← aliveBefore,alive,List.length_pos_iff_exists_mem]
    exact exists_congr fun addr => upPushed ok addr
  · rw [(entry mem).1]
    exact ⟨usableSorted _,upPushed ok⟩

end Pushes

theorem recordsTell {as : List Action} (ok : run step State.init as = some s) (ready : s.ready = true) :
    told s = overview s.known ∧ Shows (overview s.known) (pushed as) ∧
    ∃ up, heard s = some up ∧ ∀ name, up name = true ↔ name ∈ namesOf (overview s.known) := by
  have start : Tells State.init := ⟨nofun,nofun,fun _ => ⟨rfl,rfl⟩,nofun⟩
  have inv := reachableKeeps tellsStep start ⟨as,ok⟩
  exact ⟨inv.last ready,overviewShows ok,inv.follows ready⟩

def userAt (healthy : Bool) : List Instance := [⟨"10.0.0.7:8888".toList,⟨['1'],by decide⟩,healthy,true,[]⟩]

def comesAndGoes : List Action :=
  [.list (some ["ser-user".toList,"ser-auth".toList]),.subscribe true,.subscribe false,.overview,
    .push "ser-user".toList (userAt true),.report,.tick,.list (some ["ser-user".toList,"ser-auth".toList]),.skip,
    .subscribe true,.skip,.push "ser-auth".toList (userAt true),.push "ser-user".toList (userAt false)]

theorem comesAndGoesTold : ∃ s, run step State.init comesAndGoes = some s ∧
    s.records.map (fun r => (r.message,r.name)) = [(.online,"ser-user".toList),(.alive,[]),(.online,"ser-auth".toList),
      (.offline,"ser-user".toList)] ∧
    told s = overview s.known ∧ Shows (overview s.known) (pushed comesAndGoes) ∧
    ∃ up, heard s = some up ∧ ∀ name, up name = true ↔ name ∈ namesOf (overview s.known) := by
  have facts : (run step State.init comesAndGoes).map (fun s => (s.ready,s.records.map (fun r => (r.message,r.name)))) =
      some (true,[(.online,"ser-user".toList),(.alive,[]),(.online,"ser-auth".toList),
        (.offline,"ser-user".toList)]) := by decide +kernel
  obtain ⟨s,ok,both⟩ := Option.map_eq_some_iff.mp facts
  obtain ⟨ready,records⟩ := Prod.mk.inj both
  exact ⟨s,ok,records,recordsTell ok ready⟩

theorem subscribedOnce (reached : Reachable step State.init s) :
    (∀ name, s.subs.count name ≤ 1) ∧ (s.loop = .ended true → ∀ name ∈ s.listed, s.subs.count name = 1) := by
  have start : Subscribed State.init :=
    ⟨fun _ => Iff.rfl,List.nodup_nil,fun _ _ name mem => absurd mem List.not_mem_nil,nofun,nofun⟩
  have inv := reachableKeeps subscribedStep start reached
  exact ⟨fun name => List.nodup_iff_count_le_one.mp inv.once name,
    fun ended name mem => List.count_eq_one_of_mem inv.once (inv.ended ended name mem)⟩

theorem authSubscribed : ∃ s, run step State.init comesAndGoes = some s ∧ s.loop = .ended true ∧
    (∀ name, s.subs.count name ≤ 1) ∧ (s.loop = .ended true → ∀ name ∈ s.listed, s.subs.count name = 1) := by
  have facts : (run step State.init comesAndGoes).map State.loop = some (.ended true) := by decide +kernel
  obtain ⟨s,ok,ended⟩ := Option.map_eq_some_iff.mp facts
  exact ⟨s,ok,ended,subscribedOnce ⟨comesAndGoes,ok⟩⟩

end Records

end DevkitCommon.Nacosx.Watch
