import DevkitCommon.Lib.Machine
import DevkitCommon.Lib.Objects
import DevkitCommon.Lib.Words
import Mathlib.Data.Char
import Mathlib.Data.List.Lex

/-! The instances of one service as a client knows them. The pushes of the SDK and the look-ups
both come through observe, which tells the subscribers what it takes for a change. -/
namespace DevkitCommon.Nacosx.Naming
open Machine Objects Words

section Source

/- A double by its shortest text without an exponent, which no two doubles share. -/
structure Weight where
  text : Text
  plain : ' ' ∉ text
  deriving DecidableEq

def Weight.positive (w : Weight) : Bool := w.text.head? != some '-' && w.text != ['0'] && w.text != "NaN".toList

structure Host where
  ip : Text
  port : Nat
  weight : Weight
  healthy : Bool
  enable : Bool
  metadata : List (Text × Text)
  deriving DecidableEq

structure Instance where
  addr : Text
  weight : Weight
  healthy : Bool
  enabled : Bool
  metadata : List (Text × Text)
  deriving DecidableEq

def Instance.usable (i : Instance) : Bool := i.healthy && i.enabled && i.weight.positive

def Instance.state (i : Instance) : Text :=
  "weight=".toList ++ i.weight.text ++ (if i.healthy then [] else " unhealthy".toList) ++
    (if i.enabled then [] else " disabled".toList)

def joinHostPort (host port : Text) : Text :=
  if ':' ∈ host then '['::host ++ "]:".toList ++ port else host ++ ':'::port

/- sort.Slice by address: where two entries have the same one, it may leave them either way. -/
structure Env where
  name : String
  group : String
  space : String
  sort : List Instance → List Instance
  perm : ∀ l, (sort l).Perm l
  ordered : ∀ l, (sort l).Pairwise (fun i j => i.addr ≤ j.addr)

def Host.converted (h : Host) : Instance :=
  ⟨joinHostPort h.ip (Nat.toDigits 10 h.port),h.weight,h.healthy,h.enable,h.metadata⟩

def convert (env : Env) (hosts : List Host) : List Instance := env.sort (hosts.map Host.converted)

structure Known where
  store : Store Text Instance
  keyed : ∀ e ∈ store.entries, e.2.addr = e.1

def Known.empty : Known := ⟨Store.empty,fun _ mem => absurd mem List.not_mem_nil⟩

def Known.put (m : Known) (i : Instance) : Known where
  store := m.store.put i.addr i
  keyed := by
    rintro ⟨k,j⟩ mem
    obtain ⟨rfl,rfl⟩ | ⟨_,old⟩ := Store.memPut.mp mem
    · rfl
    · exact m.keyed _ old

def byAddr (list : List Instance) : Known := list.foldl Known.put Known.empty

def Known.list (m : Known) : List Instance := m.store.entries.map Prod.snd

inductive Op where | added | removed | changed
  deriving DecidableEq, Repr

structure InstanceChange where
  op : Op
  inst : Instance
  was : Text
  deriving DecidableEq

def compared (old : Known) (e : Text × Instance) : Option InstanceChange := match old.store.get e.1 with
  | none => some ⟨.added,e.2,[]⟩
  | some was => if was.state ≠ e.2.state then some ⟨.changed,e.2,was.state⟩ else none

def gone (cur : Known) (e : Text × Instance) : Option InstanceChange :=
  if cur.store.get e.1 = none then some ⟨.removed,e.2,[]⟩ else none

def instanceDiff (old cur : Known) : List InstanceChange :=
  (cur.store.entries.filterMap (compared old) ++ old.store.entries.filterMap (gone cur)).insertionSort
    (fun a b => a.inst.addr ≤ b.inst.addr)

structure Service where
  param : Bool
  seen : Bool
  known : Known
  subs : List (List (List Instance))

def Service.tell (s : Service) : Service := {s with subs := s.subs.map (fun heard => heard ++ [s.known.list])}

def Service.join (s : Service) : Service := {s with subs := s.subs ++ [[s.known.list]]}

def Service.observe (s : Service) (list : List Instance) (pushed : Bool) : Service :=
  if list = [] ∧ pushed = false ∧ s.seen = true then s
  else
    let changes := instanceDiff s.known (byAddr list)
    let next := {s with seen := true,known := byAddr list}
    if changes = [] ∧ s.seen = true then next else next.tell

inductive Kind where | instances | lookup | subscribe
  deriving DecidableEq, Repr

inductive Point where
  | subscribe
  | registering
  | read
  | observe (version : Nat)
  | join
  | returned (list : List Instance) (err : Option String)
  deriving DecidableEq

structure Call where
  kind : Kind
  point : Point
  deriving DecidableEq

/- lists are those the SDK has had of the service, none of an instance at first; a callback
that is due, and a look-up, has one of them. told is the one that was pushed last, registering
the call that holds subMu while the SDK is asked. -/
structure State where
  lists : List (List Host)
  callbacks : Nat
  pending : List Nat
  told : Nat
  registering : Option Nat
  service : Service
  calls : List Call

def State.init : State := ⟨[[]],0,[],0,none,⟨false,false,Known.empty,[]⟩,[]⟩

namespace State
variable (s : State)

def newest : Nat := s.lists.length - 1
def listOf (version : Nat) : List Host := s.lists.getD version []
def sdk : List Host := s.listOf s.newest
def setCall (c : Nat) (kind : Kind) (point : Point) : State := {s with calls := s.calls.set c ⟨kind,point⟩}

end State

def Kind.next : Kind → Point
  | .instances | .lookup => .read
  | .subscribe => .join

def noInstance (env : Env) (registered : Nat) : String :=
  s!"nacosx: no instance of {env.name} can take requests (group {env.group}, namespace {env.space}; {registered} registered)"

def answer (env : Env) (kind : Kind) (list : List Instance) : Point :=
  let usable := list.filter Instance.usable
  if kind = .instances ∧ usable = [] then .returned [] (some (noInstance env list.length)) else .returned usable none

/- A callback whose registration failed may have been kept. -/
inductive Action where
  | call (kind : Kind)
  | subscribe (c : Nat)
  | registered (c : Nat) (err : Option String) (kept : Bool)
  | read (c : Nat) (err : Option String)
  | observe (c : Nat)
  | join (c : Nat)
  | push (list : List Host)
  | told
  deriving DecidableEq

def step (env : Env) (s : State) : Action → Option State
  | .call kind => some {s with calls := s.calls ++ [⟨kind,.subscribe⟩]}
  | .subscribe c => match s.calls[c]? with
    | some ⟨kind,.subscribe⟩ =>
      if s.registering ≠ none then none
      else if s.service.param then some (s.setCall c kind kind.next)
      else some {s.setCall c kind .registering with
        registering := some c
        callbacks := s.callbacks + 1
        pending := s.pending ++ if s.newest = 0 then [] else [s.newest]}
    | _ => none
  | .registered c err kept => match s.calls[c]? with
    | some ⟨kind,.registering⟩ => match err with
      | none => some {s.setCall c kind kind.next with registering := none,service := {s.service with param := true}}
      | some e => some {s.setCall c kind (.returned [] (some s!"nacosx: subscribe to {env.name}: {e}")) with
        registering := none
        callbacks := if kept then s.callbacks else s.callbacks - 1}
    | _ => none
  | .read c err => match s.calls[c]? with
    | some ⟨kind,.read⟩ => match err with
      | none => some (s.setCall c kind (.observe s.newest))
      | some e => some (s.setCall c kind (.returned [] (some s!"nacosx: look up {env.name}: {e}")))
    | _ => none
  | .observe c => match s.calls[c]? with
    | some ⟨kind,.observe version⟩ =>
      let list := convert env (s.listOf version)
      some {s.setCall c kind (answer env kind list) with service := s.service.observe list false}
    | _ => none
  | .join c => match s.calls[c]? with
    | some ⟨kind,.join⟩ => some {s.setCall c kind (.returned [] none) with service := s.service.join}
    | _ => none
  | .push list =>
    if list = [] then none
    else some {s with lists := s.lists ++ [list],pending := s.pending ++ List.replicate s.callbacks s.lists.length}
  | .told => match s.pending with
    | [] => none
    | version::rest => some {s with
      pending := rest
      told := version
      service := s.service.observe (convert env (s.listOf version)) true}

end Source
section Claim
variable {env : Env} {s t : State} {a : Action} {as : List Action} {i j : Instance} {m old cur : Known}
  {v : Service} {list last : List Instance} {hosts : List Host} {c : Nat} {kind : Kind} {point : Point}

structure Agrees (i : Instance) (h : Host) : Prop where
  addr : i.addr = h.converted.addr
  weight : i.weight = h.weight
  healthy : i.healthy = h.healthy
  enabled : i.enabled = h.enable

structure Current (last : List Instance) (hosts : List Host) : Prop where
  ordered : (last.map Instance.addr).Pairwise (· < ·)
  known : ∀ i ∈ last, ∃ h ∈ hosts, Agrees i h
  whole : ∀ h ∈ hosts, ∃ i ∈ last, i.addr = h.converted.addr

def Point.done : Point → Bool
  | .returned _ _ => true
  | _ => false

structure Quiet (s : State) : Prop where
  pending : s.pending = []
  calls : ∀ call ∈ s.calls, call.point.done = true

instance (s : State) : Decidable (Quiet s) :=
  decidable_of_iff (s.pending = [] ∧ ∀ call ∈ s.calls, call.point.done = true)
    ⟨fun both => ⟨both.1,both.2⟩,fun quiet => ⟨quiet.pending,quiet.calls⟩⟩

def inTime (s : State) : Action → Bool
  | .observe c => match s.calls[c]? with
    | some ⟨_,.observe version⟩ => decide (s.told ≤ version)
    | _ => true
  | _ => true

def InTime (s : State) (a : Action) : Prop := inTime s a = true
instance (s : State) (a : Action) : Decidable (InTime s a) := by unfold InTime; infer_instance

def Instance.core (i : Instance) : Weight × Bool × Bool := (i.weight,i.healthy,i.enabled)

def cores (list : List Instance) : List (Text × Weight × Bool × Bool) := list.map (fun i => (i.addr,i.core))

section Known

theorem wordsApart {w x u v : Text} (plain : ' ' ∉ w) (plain' : ' ' ∉ x) (first : ∀ c, u.head? = some c → c = ' ')
    (first' : ∀ c, v.head? = some c → c = ' ') (same : w ++ u = x ++ v) : w = x ∧ u = v := by
  induction w generalizing x with
  | nil =>
    cases x with
    | nil => exact ⟨rfl,same⟩
    | cons d x =>
      have head : u.head? = some d := by rw [← List.nil_append u,same]; rfl
      exact absurd (first d head ▸ List.mem_cons_self) plain'
  | cons d w ih =>
    cases x with
    | nil =>
      have head : v.head? = some d := by rw [← List.nil_append v,← same]; rfl
      exact absurd (first' d head ▸ List.mem_cons_self) plain
    | cons e x =>
      obtain ⟨rfl,rest⟩ := List.cons.inj same
      have more := ih (fun mem => plain (List.mem_cons_of_mem _ mem)) (fun mem => plain' (List.mem_cons_of_mem _ mem)) rest
      exact ⟨congrArg (d::·) more.1,more.2⟩

def flags (healthy enabled : Bool) : Text :=
  (if healthy then [] else " unhealthy".toList) ++ (if enabled then [] else " disabled".toList)

theorem flagsFirst (healthy enabled : Bool) (c : Char) (head : (flags healthy enabled).head? = some c) : c = ' ' := by
  have first : (flags healthy enabled).head? = none ∨ (flags healthy enabled).head? = some ' ' := by
    cases healthy
    · exact .inr rfl
    · cases enabled
      · exact .inr rfl
      · exact .inl rfl
  obtain none | blank := first
  · exact absurd (none.symm.trans head) (Option.some_ne_none c).symm
  · exact (Option.some.inj (blank.symm.trans head)).symm

theorem flagsLength (healthy enabled : Bool) :
    (flags healthy enabled).length = (if healthy then 0 else 10) + if enabled then 0 else 9 := by
  rw [flags,List.length_append]
  cases healthy <;> cases enabled <;> rfl

theorem flagsInj {h e h' e' : Bool} (same : flags h e = flags h' e') : h = h' ∧ e = e' := by
  have long := congrArg List.length same
  rw [flagsLength,flagsLength] at long
  clear same
  cases h <;> cases h' <;> cases e <;> cases e' <;> first | exact ⟨rfl,rfl⟩ | exact absurd long (by decide)

theorem stateFlags (i : Instance) : i.state = "weight=".toList ++ (i.weight.text ++ flags i.healthy i.enabled) := by
  unfold Instance.state flags
  generalize "weight=".toList = w
  rw [List.append_assoc,List.append_assoc]

theorem stateCore : i.state = j.state ↔ i.core = j.core := by
  rw [stateFlags,stateFlags,List.append_right_inj]
  constructor
  · intro same
    obtain ⟨text,rest⟩ := wordsApart i.weight.plain j.weight.plain (flagsFirst _ _) (flagsFirst _ _) same
    obtain ⟨healthy,enabled⟩ := flagsInj rest
    have weight : i.weight = j.weight := by
      cases hi : i.weight
      cases hj : j.weight
      rw [hi,hj] at text
      cases text
      rfl
    rw [Instance.core,Instance.core,weight,healthy,enabled]
  · intro same
    obtain ⟨weight,healthy,enabled⟩ : i.weight = j.weight ∧ i.healthy = j.healthy ∧ i.enabled = j.enabled := by
      simpa only [Instance.core,Prod.mk.injEq] using same
    rw [weight,healthy,enabled]

theorem memList : i ∈ m.list ↔ (i.addr,i) ∈ m.store.entries := by
  rw [Known.list,List.mem_map]
  constructor
  · rintro ⟨⟨k,j⟩,mem,rfl⟩
    have key : j.addr = k := m.keyed _ mem
    subst key
    exact mem
  · exact fun mem => ⟨_,mem,rfl⟩

theorem listOrdered (m : Known) : (m.list.map Instance.addr).Pairwise (· < ·) := by
  rw [Known.list,List.map_map,List.pairwise_map]
  refine m.store.ordered.imp_of_mem fun {d e} mem mem' less => ?_
  rw [Function.comp,Function.comp,m.keyed d mem,m.keyed e mem']
  exact less

theorem memByAddr (list : List Instance) : (∀ i ∈ (byAddr list).list, i ∈ list) ∧
    ∀ i ∈ list, ∃ j ∈ (byAddr list).list, j.addr = i.addr := by
  have fold (m : Known) : (∀ i ∈ (list.foldl Known.put m).list, i ∈ m.list ∨ i ∈ list) ∧
      ∀ i, i ∈ m.list ∨ i ∈ list → ∃ j ∈ (list.foldl Known.put m).list, j.addr = i.addr := by
    induction list generalizing m with
    | nil => exact ⟨fun i mem => .inl mem,fun i mem => ⟨i,mem.resolve_right List.not_mem_nil,rfl⟩⟩
    | cons d rest ih =>
      have put (i : Instance) : i ∈ (m.put d).list ↔ i = d ∨ i.addr ≠ d.addr ∧ i ∈ m.list := by
        rw [memList,memList,Known.put,Store.memPut]
        refine or_congr_left ⟨And.right,?_⟩
        rintro rfl
        exact ⟨rfl,rfl⟩
      obtain ⟨back,there⟩ := ih (m.put d)
      constructor
      · intro i mem
        obtain mem | mem := back i mem
        · obtain rfl | ⟨_,mem⟩ := (put i).mp mem
          · exact .inr List.mem_cons_self
          · exact .inl mem
        · exact .inr (List.mem_cons_of_mem _ mem)
      · rintro i (mem | mem)
        · by_cases same : i.addr = d.addr
          · obtain ⟨j,mem',equal⟩ := there d (.inl ((put d).mpr (.inl rfl)))
            exact ⟨j,mem',equal.trans same.symm⟩
          · exact there i (.inl ((put i).mpr (.inr ⟨same,mem⟩)))
        · obtain rfl | mem := List.mem_cons.mp mem
          · exact there i (.inl ((put i).mpr (.inl rfl)))
          · exact there i (.inr mem)
  obtain ⟨back,there⟩ := fold Known.empty
  exact ⟨fun i mem => (back i mem).resolve_left List.not_mem_nil,fun i mem => there i (.inr mem)⟩

theorem memConvert : i ∈ convert env hosts ↔ ∃ h ∈ hosts, h.converted = i :=
  (env.perm _).mem_iff.trans List.mem_map

theorem coresOrdered (m : Known) : Ordered (cores m.list) :=
  List.pairwise_map.mpr (List.pairwise_map.mp (listOrdered m))

theorem diffNil (none : instanceDiff old cur = []) : cores old.list = cores cur.list := by
  have parts : cur.store.entries.filterMap (compared old) ++ old.store.entries.filterMap (gone cur) = [] :=
    List.Perm.eq_nil (none ▸ (List.perm_insertionSort _ _).symm)
  obtain ⟨news,olds⟩ := List.append_eq_nil_iff.mp parts
  have still : ∀ i ∈ cur.list, ∃ was, old.store.get i.addr = some was ∧ was.core = i.core := by
    intro i mem
    have same := List.filterMap_eq_nil_iff.mp news _ (memList.mp mem)
    rw [compared] at same
    cases found : old.store.get i.addr with
    | none =>
      simp only [found] at same
      cases same
    | some was =>
      simp only [found] at same
      refine ⟨was,rfl,stateCore.mp (by_contra fun other => ?_)⟩
      rw [if_pos other] at same
      cases same
  have there : ∀ i ∈ old.list, ∃ now, cur.store.get i.addr = some now := by
    intro i mem
    have same := List.filterMap_eq_nil_iff.mp olds _ (memList.mp mem)
    rw [gone] at same
    refine Option.ne_none_iff_exists'.mp fun absent => ?_
    rw [if_pos absent] at same
    cases same
  have entry {m : Known} {i : Instance} {k : Text} (found : m.store.get k = some i) : i.addr = k ∧ i ∈ m.list := by
    have mem := Store.getIff.mp found
    have key := m.keyed _ mem
    exact ⟨key,memList.mpr (key ▸ mem)⟩
  have same : ∀ i ∈ old.list, ∃ j ∈ cur.list, (j.addr,j.core) = (i.addr,i.core) := by
    intro i mem
    obtain ⟨now,found⟩ := there i mem
    obtain ⟨key,inside⟩ := entry found
    obtain ⟨was,before,equal⟩ := still now inside
    rw [key,Store.getIff.mpr (memList.mp mem)] at before
    cases before
    exact ⟨now,inside,by rw [key,equal]⟩
  refine orderedExt (coresOrdered old) (coresOrdered cur) fun e => ?_
  rw [cores,cores,List.mem_map,List.mem_map]
  constructor
  · rintro ⟨i,mem,rfl⟩
    exact same i mem
  · rintro ⟨i,mem,rfl⟩
    obtain ⟨was,found,equal⟩ := still i mem
    obtain ⟨key,inside⟩ := entry found
    exact ⟨was,inside,by rw [key,equal]⟩

theorem coresCurrent (same : cores last = cores (byAddr (convert env hosts)).list) : Current last hosts := by
  obtain ⟨back,there⟩ := memByAddr (convert env hosts)
  have first : last.map Instance.addr = (byAddr (convert env hosts)).list.map Instance.addr := by
    have firsts := congrArg (List.map Prod.fst) same
    rw [cores,cores,List.map_map,List.map_map] at firsts
    exact firsts
  refine ⟨first ▸ listOrdered _,fun i mem => ?_,fun h mem => ?_⟩
  · have mem' : (i.addr,i.core) ∈ cores last := List.mem_map.mpr ⟨i,mem,rfl⟩
    rw [same] at mem'
    obtain ⟨j,inside,equal⟩ := List.mem_map.mp mem'
    obtain ⟨h,of,rfl⟩ := memConvert.mp (back j inside)
    simp only [Instance.core,Prod.mk.injEq] at equal
    obtain ⟨addr,weight,healthy,enabled⟩ := equal
    exact ⟨h,of,addr.symm,weight.symm,healthy.symm,enabled.symm⟩
  · obtain ⟨j,inside,addr⟩ := there _ (memConvert.mpr ⟨h,mem,rfl⟩)
    have mem' : j.addr ∈ last.map Instance.addr := first ▸ List.mem_map.mpr ⟨j,inside,rfl⟩
    obtain ⟨i,here,equal⟩ := List.mem_map.mp mem'
    exact ⟨i,here,equal.trans addr⟩

end Known

def Told (v : Service) : Prop := ∀ heard ∈ v.subs, ∃ last, heard.getLast? = some last ∧ cores last = cores v.known.list

theorem tellTold (v : Service) : Told v.tell := by
  intro heard mem
  obtain ⟨before,_,rfl⟩ := List.mem_map.mp mem
  exact ⟨_,List.getLast?_concat,rfl⟩

theorem joinTold (told : Told v) : Told v.join := by
  intro heard mem
  obtain old | new := List.mem_append.mp mem
  · exact told heard old
  · rw [List.mem_singleton.mp new]
    exact ⟨_,rfl,rfl⟩

theorem observeCases (v : Service) (list : List Instance) (pushed : Bool) :
    v.observe list pushed = v ∧ list = [] ∧ pushed = false ∨
      ∃ next, next = {v with seen := true,known := byAddr list} ∧
        (v.observe list pushed = next ∧ cores v.known.list = cores next.known.list ∨ v.observe list pushed = next.tell) := by
  rw [Service.observe]
  split
  · rename_i nothing
    exact .inl ⟨rfl,nothing.1,nothing.2.1⟩
  · refine .inr ⟨_,rfl,?_⟩
    dsimp only
    split
    · rename_i same
      exact .inl ⟨rfl,diffNil same.1⟩
    · exact .inr rfl

theorem observeTold {pushed : Bool} (told : Told v) : Told (v.observe list pushed) := by
  obtain ⟨same,_⟩ | ⟨next,is,⟨same,equal⟩ | tells⟩ := observeCases v list pushed
  · rwa [same]
  · subst is
    rw [same]
    intro heard mem
    obtain ⟨last,latest,tells⟩ := told heard mem
    exact ⟨last,latest,tells.trans equal⟩
  · rw [tells]
    exact tellTold next

theorem observeParam {pushed : Bool} : (v.observe list pushed).param = v.param := by
  obtain ⟨same,_⟩ | ⟨next,rfl,⟨same,_⟩ | tells⟩ := observeCases v list pushed
  · rw [same]
  · rw [same]
  · rw [tells]
    rfl

theorem observeSubs {pushed : Bool} (none : v.subs = []) : (v.observe list pushed).subs = [] := by
  obtain ⟨same,_⟩ | ⟨next,rfl,⟨same,_⟩ | tells⟩ := observeCases v list pushed
  · rw [same,none]
  · rw [same]
    exact none
  · rw [tells,Service.tell]
    exact List.map_eq_nil_iff.mpr none

theorem observeKnown (v : Service) (list : List Instance) (pushed : Bool) :
    (v.observe list pushed).known = byAddr list ∨ list = [] ∧ pushed = false ∧ (v.observe list pushed).known = v.known := by
  obtain ⟨same,empty,looked⟩ | ⟨next,rfl,⟨same,_⟩ | tells⟩ := observeCases v list pushed
  · exact .inr ⟨empty,looked,by rw [same]⟩
  · exact .inl (by rw [same])
  · exact .inl (by rw [tells]; rfl)

/- The callbacks that are due have the SDK's lists in their order; while a callback is
registered the SDK's own list is the last of them. -/
structure Ordering (s : State) : Prop where
  lists : s.lists ≠ []
  order : (s.told::s.pending).Pairwise (· ≤ ·)
  most : ∀ v ∈ s.told::s.pending, v ≤ s.newest
  latest : 0 < s.callbacks → (s.told::s.pending).getLast? = some s.newest

def Fits (s : State) (c : Nat) : Point → Prop
  | .registering => s.registering = some c
  | .observe version => version ≤ s.newest
  | .join => s.service.param = true
  | _ => True

structure Calls (s : State) : Prop where
  fits : ∀ c call, s.calls[c]? = some call → Fits s c call.point
  listening : s.service.param = true → 0 < s.callbacks ∧ s.registering = none
  asked : s.registering ≠ none → 0 < s.callbacks
  followed : s.service.subs ≠ [] → s.service.param = true

structure Synced (env : Env) (s : State) : Prop extends Ordering s, Calls s where
  fresh : s.told = s.newest → cores s.service.known.list = cores (byAddr (convert env s.sdk)).list
  told : Told s.service

inductive Does (env : Env) (s : State) : Action → State → Prop where
  | call (kind : Kind) : Does env s (.call kind) {s with calls := s.calls ++ [⟨kind,.subscribe⟩]}
  | goes {c : Nat} {kind : Kind} (free : s.registering = none) (known : s.service.param = true) :
      Does env s (.subscribe c) (s.setCall c kind kind.next)
  | registers {c : Nat} {kind : Kind} (free : s.registering = none) (new : s.service.param = false) :
      Does env s (.subscribe c) {s.setCall c kind .registering with
        registering := some c
        callbacks := s.callbacks + 1
        pending := s.pending ++ if s.newest = 0 then [] else [s.newest]}
  | registered {c : Nat} {kind : Kind} {kept : Bool} (found : s.calls[c]? = some ⟨kind,.registering⟩) :
      Does env s (.registered c none kept)
        {s.setCall c kind kind.next with registering := none,service := {s.service with param := true}}
  | refused {c : Nat} {kind : Kind} {e : String} {kept : Bool} {list : List Instance} {err : Option String}
      {callbacks : Nat} (found : s.calls[c]? = some ⟨kind,.registering⟩)
      (fewer : callbacks = s.callbacks ∨ callbacks = s.callbacks - 1) :
      Does env s (.registered c (some e) kept)
        {s.setCall c kind (.returned list err) with registering := none,callbacks := callbacks}
  | reads {c : Nat} {kind : Kind} : Does env s (.read c none) (s.setCall c kind (.observe s.newest))
  | fails {c : Nat} {kind : Kind} {e : String} {list : List Instance} {err : Option String} :
      Does env s (.read c (some e)) (s.setCall c kind (.returned list err))
  | observes {c : Nat} {kind : Kind} {version : Nat} {list : List Instance} {err : Option String}
      (found : s.calls[c]? = some ⟨kind,.observe version⟩) :
      Does env s (.observe c) {s.setCall c kind (.returned list err) with
        service := s.service.observe (convert env (s.listOf version)) false}
  | joins {c : Nat} {kind : Kind} (found : s.calls[c]? = some ⟨kind,.join⟩) :
      Does env s (.join c) {s.setCall c kind (.returned [] none) with service := s.service.join}
  | pushes (list : List Host) : Does env s (.push list)
      {s with lists := s.lists ++ [list],pending := s.pending ++ List.replicate s.callbacks s.lists.length}
  | told {version : Nat} {rest : List Nat} (due : s.pending = version::rest) : Does env s .told {s with
      pending := rest
      told := version
      service := s.service.observe (convert env (s.listOf version)) true}

theorem answerReturned (env : Env) (kind : Kind) (list : List Instance) :
    ∃ usable err, answer env kind list = .returned usable err := by
  unfold answer
  dsimp only
  split
  · exact ⟨_,_,rfl⟩
  · exact ⟨_,_,rfl⟩

theorem stepDoes (ok : step env s a = some t) : Does env s a t := by
  cases a with
  | call kind =>
    cases Option.some.inj ok
    exact .call kind
  | subscribe c =>
    simp only [step] at ok
    split at ok <;> try contradiction
    split at ok <;> try contradiction
    rename_i free
    rw [not_not] at free
    split at ok
    · rename_i known
      cases Option.some.inj ok
      exact .goes free known
    · rename_i new
      cases Option.some.inj ok
      exact .registers free (Bool.not_eq_true _ ▸ new)
  | registered c err kept =>
    simp only [step] at ok
    split at ok <;> try contradiction
    rename_i found
    cases err with
    | none =>
      cases Option.some.inj ok
      exact .registered found
    | some e =>
      cases Option.some.inj ok
      refine .refused found ?_
      split
      · exact .inl rfl
      · exact .inr rfl
  | read c err =>
    simp only [step] at ok
    split at ok <;> try contradiction
    cases err with
    | none =>
      cases Option.some.inj ok
      exact .reads
    | some e =>
      cases Option.some.inj ok
      exact .fails
  | observe c =>
    simp only [step] at ok
    split at ok <;> try contradiction
    rename_i found
    cases Option.some.inj ok
    obtain ⟨_,_,same⟩ := answerReturned env _ _
    rw [same]
    exact .observes found
  | join c =>
    simp only [step] at ok
    split at ok <;> try contradiction
    rename_i found
    cases Option.some.inj ok
    exact .joins found
  | push list =>
    simp only [step] at ok
    split at ok <;> try contradiction
    cases Option.some.inj ok
    exact .pushes list
  | told =>
    simp only [step] at ok
    split at ok <;> try contradiction
    rename_i due
    cases Option.some.inj ok
    exact .told due

theorem newestLess (inv : Ordering s) : s.newest < s.lists.length :=
  Nat.sub_lt (List.length_pos_iff.mpr inv.lists) Nat.one_pos

theorem orderConcat {told n m : Nat} {pending more : List Nat} (order : (told::pending).Pairwise (· ≤ ·))
    (most : ∀ v ∈ told::pending, v ≤ n) (same : ∀ v ∈ more, v = m) (later : n ≤ m) :
    (told::(pending ++ more)).Pairwise (· ≤ ·) ∧ ∀ v ∈ told::(pending ++ more), v ≤ m := by
  have all : ∀ v ∈ told::(pending ++ more), v ≤ m := by
    intro v mem
    rw [← List.cons_append] at mem
    obtain old | new := List.mem_append.mp mem
    · exact (most v old).trans later
    · exact (same v new).le
  rw [← List.cons_append]
  rw [← List.cons_append] at all
  refine ⟨List.pairwise_append.mpr ⟨order,List.Pairwise.imp_of_mem ?_ (List.pairwise_of_forall (fun _ _ => trivial)),?_⟩,all⟩
  · intro v w mem mem' _
    rw [same v mem,same w mem']
  · intro v mem w mem'
    rw [same w mem']
    exact (most v mem).trans later

theorem lastConcat {told n : Nat} {pending more : List Nat} (same : ∀ v ∈ more, v = n) (some' : more ≠ []) :
    (told::(pending ++ more)).getLast? = some n := by
  have last := List.getLast_mem some'
  rw [← List.cons_append,List.getLast?_append_of_ne_nil _ some',List.getLast?_eq_some_getLast some',same _ last]

theorem doesOrdering (inv : Ordering s) (does : Does env s a t) : Ordering t := by
  have keep {u : State} (lists : u.lists = s.lists) (pending : u.pending = s.pending) (told : u.told = s.told)
      (callbacks : 0 < u.callbacks → 0 < s.callbacks) : Ordering u := by
    have newest : u.newest = s.newest := by rw [State.newest,State.newest,lists]
    refine ⟨lists ▸ inv.lists,?_,?_,?_⟩
    · rw [told,pending]
      exact inv.order
    · rw [told,pending,newest]
      exact inv.most
    · rw [told,pending,newest]
      exact fun some' => inv.latest (callbacks some')
  cases does with
  | call | goes | registered | reads | fails | observes | joins => exact keep rfl rfl rfl id
  | refused found fewer =>
    refine keep rfl rfl rfl fun some' => ?_
    obtain same | less := fewer
    · exact same ▸ some'
    · exact (less ▸ some' : 0 < s.callbacks - 1).trans_le (Nat.sub_le _ _)
  | registers free new =>
    have same : ∀ v ∈ (if s.newest = 0 then [] else [s.newest]), v = s.newest := by
      intro v mem
      split at mem
      · cases mem
      · exact List.mem_singleton.mp mem
    obtain ⟨order,most⟩ := orderConcat inv.order inv.most same (Nat.le_refl _)
    refine ⟨inv.lists,order,most,fun _ => ?_⟩
    by_cases none' : s.newest = 0
    · have last := List.getLast_mem (List.cons_ne_nil s.told s.pending)
      have zero := Nat.le_zero.mp ((inv.most _ last).trans none'.le)
      have equal : s.pending ++ (if s.newest = 0 then [] else [s.newest]) = s.pending := by
        rw [if_pos none',List.append_nil]
      change (s.told::(s.pending ++ (if s.newest = 0 then [] else [s.newest]))).getLast? = some s.newest
      rw [equal,List.getLast?_eq_some_getLast (List.cons_ne_nil _ _),zero,none']
    · exact lastConcat same (by rw [if_neg none']; exact List.cons_ne_nil _ _)
  | pushes list =>
    have same : ∀ v ∈ List.replicate s.callbacks s.lists.length, v = s.lists.length :=
      fun v mem => List.eq_of_mem_replicate mem
    have newest : (s.lists ++ [list]).length - 1 = s.lists.length := by simp
    obtain ⟨order,most⟩ := orderConcat inv.order inv.most same (newestLess inv).le
    refine ⟨List.append_ne_nil_of_right_ne_nil _ (List.cons_ne_nil _ _),order,fun v mem => ?_,fun some' => ?_⟩
    · exact (most v mem).trans newest.ge
    · refine (lastConcat same ?_).trans (congrArg some newest.symm)
      exact List.ne_nil_of_length_pos (by rwa [List.length_replicate])
  | @told version rest due =>
    have order := inv.order
    have most := inv.most
    have latest := inv.latest
    rw [due] at order most latest
    refine ⟨inv.lists,(List.pairwise_cons.mp order).2,fun v mem => most v (List.mem_cons_of_mem _ mem),fun some' => ?_⟩
    exact (List.getLast?_cons_cons).symm.trans (latest some')

theorem nextFits (known : s.service.param = true) : Fits s c kind.next := by
  cases kind with
  | instances | lookup => trivial
  | subscribe => exact known

theorem setFits {k : Kind} (inv : Calls s) (calls : t.calls = s.calls.set c ⟨k,point⟩) (here : Fits t c point)
    (others : ∀ d p, d ≠ c → Fits s d p → Fits t d p) : ∀ d call, t.calls[d]? = some call → Fits t d call.point := by
  intro d call found
  rw [calls] at found
  obtain ⟨rfl,rfl⟩ | ⟨other,before⟩ := setFound found
  · exact here
  · exact others d call.point other (inv.fits d call before)

theorem fitsSame (newest : s.newest ≤ t.newest) (registering : t.registering = s.registering)
    (param : t.service.param = s.service.param) {d : Nat} {p : Point} (fits : Fits s d p) : Fits t d p := by
  cases p with
  | registering => exact registering.trans fits
  | observe version => exact Nat.le_trans fits newest
  | join => exact param.trans fits
  | subscribe | read | returned => trivial

theorem doesCalls (inv : Calls s) (old : Ordering s) (does : Does env s a t) : Calls t := by
  cases does with
  | call kind =>
    refine ⟨fun c call found => ?_,inv.listening,inv.asked,inv.followed⟩
    obtain before | ⟨_,rfl⟩ := concatFrom found
    · exact fitsSame le_rfl rfl rfl (inv.fits c call before)
    · trivial
  | goes free known =>
    exact ⟨setFits inv rfl (nextFits known) (fun _ _ _ fits => fitsSame le_rfl rfl rfl fits),inv.listening,inv.asked,inv.followed⟩
  | @registers c kind free new =>
    refine ⟨setFits inv (c := c) (k := kind) rfl rfl (fun d p _ fits => ?_),fun known => ?_,fun _ => Nat.succ_pos _,inv.followed⟩
    · cases p with
      | registering => exact absurd (free.symm.trans fits) (Option.some_ne_none d).symm
      | observe | join => exact fits
      | subscribe | read | returned => trivial
    · exact absurd (new.symm.trans known) Bool.false_ne_true
  | @registered c kind kept found =>
    have mine : s.registering = some c := inv.fits c _ found
    have some' := inv.asked (mine ▸ Option.some_ne_none c)
    refine ⟨setFits inv (c := c) (k := kind) rfl (nextFits rfl) (fun d p other fits => ?_),fun _ => ⟨some',rfl⟩,
      fun held => absurd rfl held,fun _ => rfl⟩
    cases p with
    | registering => exact absurd (Option.some.inj (mine.symm.trans fits)).symm other
    | observe => exact fits
    | join => rfl
    | subscribe | read | returned => trivial
  | @refused c kind e kept list err callbacks found fewer =>
    have mine : s.registering = some c := inv.fits c _ found
    have new : s.service.param ≠ true := fun known => Option.some_ne_none c (mine.symm.trans (inv.listening known).2)
    refine ⟨setFits inv (c := c) (k := kind) rfl trivial (fun d p other fits => ?_),fun known => absurd known new,
      fun held => absurd rfl held,inv.followed⟩
    cases p with
    | registering => exact absurd (Option.some.inj (mine.symm.trans fits)).symm other
    | observe | join => exact fits
    | subscribe | read | returned => trivial
  | reads =>
    exact ⟨setFits inv rfl (Nat.le_refl s.newest) (fun _ _ _ fits => fitsSame le_rfl rfl rfl fits),inv.listening,inv.asked,inv.followed⟩
  | fails =>
    exact ⟨setFits inv rfl trivial (fun _ _ _ fits => fitsSame le_rfl rfl rfl fits),inv.listening,inv.asked,inv.followed⟩
  | observes found =>
    refine ⟨setFits inv rfl trivial (fun _ _ _ fits => ?_),fun known => inv.listening (observeParam ▸ known),inv.asked,
      fun some' => ?_⟩
    · refine fitsSame ?_ ?_ ?_ fits
      · exact le_rfl
      · rfl
      · exact observeParam
    · exact observeParam.trans (inv.followed fun none' => some' (observeSubs none'))
  | @joins c kind found =>
    have known : s.service.param = true := inv.fits c _ found
    exact ⟨setFits inv (c := c) (k := kind) rfl trivial (fun _ _ _ fits => fitsSame le_rfl rfl rfl fits),inv.listening,inv.asked,
      fun _ => known⟩
  | pushes list =>
    refine ⟨fun c call found => ?_,inv.listening,inv.asked,inv.followed⟩
    have later : s.newest ≤ (s.lists ++ [list]).length - 1 := by
      rw [List.length_append,List.length_singleton,Nat.add_sub_cancel]
      exact (newestLess old).le
    refine fitsSame ?_ ?_ ?_ (inv.fits c call found)
    · exact later
    · rfl
    · rfl
  | told due =>
    refine ⟨fun c call found => ?_,fun known => inv.listening (observeParam ▸ known),inv.asked,fun some' => ?_⟩
    · refine fitsSame ?_ ?_ ?_ (inv.fits c call found)
      · exact le_rfl
      · rfl
      · exact observeParam
    · exact observeParam.trans (inv.followed fun none' => some' (observeSubs none'))

theorem doesFresh (inv : Synced env s) (fresh : InTime s a) (does : Does env s a t) :
    t.told = t.newest → cores t.service.known.list = cores (byAddr (convert env t.sdk)).list := by
  cases does with
  | call | goes | registers | registered | refused | reads | fails | joins => exact inv.fresh
  | @observes c kind version list err found =>
    intro last
    have before : s.told ≤ version := by
      have time : decide (s.told ≤ version) = true := by
        simpa only [InTime,inTime,found] using fresh
      exact of_decide_eq_true time
    have known : version ≤ s.newest := inv.fits c _ found
    have equal : version = s.newest := Nat.le_antisymm known ((show s.told = s.newest from last) ▸ before)
    subst equal
    obtain same | ⟨_,_,same⟩ := observeKnown s.service (convert env (s.listOf s.newest)) false
    · exact congrArg (fun m => cores (Known.list m)) same
    · exact (congrArg (fun m => cores (Known.list m)) same).trans (inv.fresh last)
  | pushes list =>
    intro last
    have most := inv.most s.told List.mem_cons_self
    have newest : (s.lists ++ [list]).length - 1 = s.lists.length := by simp
    have short := newestLess inv.toOrdering
    have last : s.told = (s.lists ++ [list]).length - 1 := last
    omega
  | @told version rest due =>
    intro last
    have last : version = s.newest := last
    subst last
    obtain same | ⟨_,looked,_⟩ := observeKnown s.service (convert env (s.listOf s.newest)) true
    · exact congrArg (fun m => cores (Known.list m)) same
    · cases looked

theorem doesTold (told : Told s.service) (does : Does env s a t) : Told t.service := by
  cases does with
  | call | goes | registers | registered | refused | reads | fails | pushes => exact told
  | observes | told => exact observeTold told
  | joins => exact joinTold told

theorem stepSynced (inv : Synced env s) (fresh : InTime s a) (ok : step env s a = some t) : Synced env t := by
  have does := stepDoes ok
  exact ⟨doesOrdering inv.toOrdering does,doesCalls inv.toCalls inv.toOrdering does,doesFresh inv fresh does,doesTold inv.told does⟩

theorem initSynced (env : Env) : Synced env State.init where
  lists := List.cons_ne_nil _ _
  order := List.pairwise_singleton _ _
  most := fun v mem => (List.mem_singleton.mp mem).le
  latest := fun some' => absurd some' (Nat.lt_irrefl 0)
  fits := fun c call found => absurd (List.mem_of_getElem? found) List.not_mem_nil
  listening := fun known => absurd known Bool.false_ne_true
  asked := fun held => absurd rfl held
  followed := fun some' => absurd rfl some'
  fresh := fun _ => by
    have none : convert env (State.init.sdk) = [] := List.perm_nil.mp (env.perm [])
    rw [none]
    rfl
  told := fun heard mem => absurd mem List.not_mem_nil

theorem subscribersCurrent (env : Env) (as : List Action) (s : State) (ok : run (step env) State.init as = some s)
    (fresh : Along (step env) InTime State.init as) (quiet : Quiet s) :
    ∀ heard ∈ s.service.subs, ∃ last, heard.getLast? = some last ∧ Current last s.sdk := by
  have inv : Synced env s := runKeeps (fun inv fresh one => stepSynced inv fresh one) (initSynced env) fresh ok
  intro heard mem
  obtain ⟨last,latest,tells⟩ := inv.told heard mem
  have listening := inv.listening (inv.followed (List.ne_nil_of_mem mem))
  have newest := inv.latest listening.1
  rw [quiet.pending] at newest
  exact ⟨last,latest,coresCurrent (tells.trans (inv.fresh (Option.some.inj newest)))⟩

def plain : Env where
  name := "ser-member"
  group := "DEFAULT_GROUP"
  space := "public"
  sort := List.insertionSort (fun i j => i.addr ≤ j.addr)
  perm := List.perm_insertionSort _
  ordered := List.pairwise_insertionSort _

def ten : Weight := ⟨"10".toList,by decide⟩

def host (last : Text) (healthy : Bool) (version : String) : Host :=
  ⟨"10.0.0.".toList ++ last,8888,ten,healthy,true,[("version".toList,version.toList)]⟩

def first : Host := host ['5'] true "1"
def second : Host := host ['6'] true "1"

def follows : List Action :=
  [.call .subscribe,.subscribe 0,.push [first],.registered 0 none true,.told,.join 0,
    .call .lookup,.subscribe 1,.read 1 none,.push [second,host ['5'] false "1"],.observe 1,.told]

theorem lookedUpCurrent : ∃ s, run (step plain) State.init follows = some s ∧
    s.service.subs = [[[first.converted],[(host ['5'] false "1").converted,second.converted]]] ∧
    ∀ heard ∈ s.service.subs, ∃ last, heard.getLast? = some last ∧ Current last s.sdk := by
  have facts : (run (step plain) State.init follows).map (fun s => (s.service.subs,decide (Quiet s))) =
      some ([[[first.converted],[(host ['5'] false "1").converted,second.converted]]],true) := by decide
  obtain ⟨s,ok,same⟩ := Option.map_eq_some_iff.mp facts
  obtain ⟨subs,quiet⟩ := Prod.mk.inj same
  exact ⟨s,ok,subs,subscribersCurrent plain follows s ok (by decide) (of_decide_eq_true quiet)⟩

def relabelled : List Action :=
  [.call .subscribe,.subscribe 0,.push [first],.registered 0 none true,.told,.join 0,.push [host ['5'] true "2"],.told]

def overtaken : List Action :=
  [.call .subscribe,.subscribe 0,.push [first],.registered 0 none true,.told,.join 0,
    .call .lookup,.subscribe 1,.read 1 none,.push [second],.told,.observe 1]

theorem subscribersBehind : (¬ ∀ env as s, run (step env) State.init as = some s → Quiet s →
      (s.sdk.map (fun h => h.converted.addr)).Nodup → ∀ heard ∈ s.service.subs, ∃ last, heard.getLast? = some last ∧
        last.Perm (s.sdk.map Host.converted)) ∧
    ∃ s, run (step plain) State.init overtaken = some s ∧ Quiet s ∧
      s.service.subs = [[[first.converted],[second.converted],[first.converted]]] ∧ s.sdk = [second] := by
  constructor
  · intro current
    have facts : (run (step plain) State.init relabelled).map (fun s => (s.service.subs,s.sdk,decide (Quiet s))) =
        some ([[[first.converted]]],[host ['5'] true "2"],true) := by decide
    obtain ⟨s,ok,same⟩ := Option.map_eq_some_iff.mp facts
    obtain ⟨subs,sdk,quiet⟩ : s.service.subs = [[[first.converted]]] ∧ s.sdk = [host ['5'] true "2"] ∧
        decide (Quiet s) = true := by
      simpa only [Prod.mk.injEq] using same
    obtain ⟨last,latest,equal⟩ := current plain relabelled s ok (of_decide_eq_true quiet) (by rw [sdk]; decide)
      [[first.converted]] (subs ▸ List.mem_cons_self)
    cases Option.some.inj latest
    rw [sdk] at equal
    exact absurd (List.singleton_perm_singleton.mp equal) (by decide)
  · have facts : (run (step plain) State.init overtaken).map (fun s => (s.service.subs,s.sdk,decide (Quiet s))) =
        some ([[[first.converted],[second.converted],[first.converted]]],[second],true) := by decide
    obtain ⟨s,ok,same⟩ := Option.map_eq_some_iff.mp facts
    obtain ⟨subs,sdk,quiet⟩ : s.service.subs = [[[first.converted],[second.converted],[first.converted]]] ∧
        s.sdk = [second] ∧ decide (Quiet s) = true := by
      simpa only [Prod.mk.injEq] using same
    exact ⟨s,ok,of_decide_eq_true quiet,subs,sdk⟩

end Claim
end DevkitCommon.Nacosx.Naming
