import DevkitCommon.Authx.Token
import DevkitCommon.Lib.Machine
import Mathlib.Algebra.Ring.Int.Defs
import Mathlib.Algebra.Ring.Nat
import Mathlib.Data.List.Induction
import Mathlib.Tactic.Tauto

/-! The load balancer of tagged routing: the tags of a request, the split of the instances
into tagged ones and the baseline, the picker, and the calls of the balancer for one key,
step by step. The default balancer and what it draws are any functions. -/
namespace DevkitCommon.Devroute
open Authx Machine

def tagMetadata : String := "dev-tag"
def maxTags : Nat := 3

abbrev Context := Option String

def validTag (tag : List Char) : Bool :=
  tag != [] && decide (tag.length ≤ 32) &&
    tag.all (fun c => decide ('a' ≤ c ∧ c ≤ 'z') || c.isDigit || c == '-')

def parseTags : List (List Char) → Option (List String)
  | [] => some []
  | t::rest =>
    let t := trimSpace (String.ofList t)
    if validTag t then (parseTags rest).map (fun tags => String.ofList t::tags) else none

def parse (header : String) : Option (List String) :=
  let header := trimSpace header
  if header = [] then none
  else
    let parts := header.splitOn ','
    if maxTags < parts.length then none else parseTags parts

def tagsOf (ctx : Context) : List String :=
  match ctx with
  | none => []
  | some v => if v = "" then [] else (parse v).getD []

/- Metadata is a map: of two entries with one key the first counts. -/
structure Instance where
  address : String
  weight : Int
  tags : List (String × String)
  deriving DecidableEq, Repr

def Instance.tag (x : Instance) : String := (x.tags.lookup tagMetadata).getD ""

structure Result where
  cacheable : Bool
  cacheKey : String
  instances : List Instance
  deriving DecidableEq, Repr

/- The default balancer with its cache: whether it is a Rebalancer, its calls, and what a
picker of it answers to a request for a draw. -/
structure Base (σ π : Type) where
  rebalancer : Bool
  rebalance : σ → Result → σ
  getPicker : σ → Result → σ × π
  delete : σ → Result → σ
  next : π → Context → Nat → Option Instance

inductive Picker (π : Type) where
  | base (p : π)
  | picker (base : π) (tagged : List (String × List Instance)) (hasBaseline : Bool)
  deriving DecidableEq, Repr

def append (tagged : List (String × List Instance)) (tag : String) (x : Instance) : List (String × List Instance) :=
  match tagged with
  | [] => [(tag,[x])]
  | (t,list)::rest => if t = tag then (t,list ++ [x])::rest else (t,list)::append rest tag x

def split (instances : List Instance) : List (String × List Instance) × List Instance :=
  instances.foldl (fun s x => if x.tag ≠ "" then (append s.1 x.tag x,s.2) else (s.1,s.2 ++ [x])) ([],[])

def Result.active (r : Result) : List String := (split r.instances).1.map Prod.fst

def Result.baseline (r : Result) : Result := {r with instances := (split r.instances).2}

section Split
variable {tagged : List (String × List Instance)} {tag t : String} {x : Instance}

theorem lookupAppend : ((append tagged tag x).lookup t).getD [] =
    (tagged.lookup t).getD [] ++ if t = tag then [x] else [] := by
  induction tagged with
  | nil =>
    by_cases same : t = tag
    · simp [append,same]
    · have other : (t == tag) = false := beq_eq_false_iff_ne.mpr same
      simp [append,List.lookup_cons,other,same]
  | cons e rest ih =>
    obtain ⟨u,list⟩ := e
    unfold append
    split
    · rename_i here
      subst here
      rw [List.lookup_cons,List.lookup_cons]
      by_cases same : t = u
      · simp [same]
      · have other : (t == u) = false := beq_eq_false_iff_ne.mpr same
        simp [other,same]
    · rename_i here
      rw [List.lookup_cons,List.lookup_cons]
      by_cases same : t = u
      · subst same
        simp [here]
      · have other : (t == u) = false := beq_eq_false_iff_ne.mpr same
        simpa [other] using ih

theorem keysAppend : t ∈ (append tagged tag x).map Prod.fst ↔ t ∈ tagged.map Prod.fst ∨ t = tag := by
  induction tagged with
  | nil => simp [append]
  | cons e rest ih =>
    obtain ⟨u,list⟩ := e
    unfold append
    split
    · rename_i here
      subst here
      simp only [List.map_cons,List.mem_cons]
      tauto
    · simp only [List.map_cons,List.mem_cons,ih]
      tauto

theorem splitConcat (instances : List Instance) (x : Instance) : split (instances ++ [x]) =
    if x.tag ≠ "" then (append (split instances).1 x.tag x,(split instances).2)
    else ((split instances).1,(split instances).2 ++ [x]) := List.foldl_concat ..

theorem splitTagged (instances : List Instance) (some : t ≠ "") :
    ((split instances).1.lookup t).getD [] = instances.filter (fun x => x.tag == t) := by
  induction instances using List.reverseRecOn with
  | nil => rfl
  | append_singleton instances x ih =>
    rw [splitConcat,List.filter_append,← ih]
    by_cases tagged : x.tag = ""
    · have other : (x.tag == t) = false := beq_eq_false_iff_ne.mpr (fun same => some (same ▸ tagged))
      simp [tagged,Ne.symm some]
    · rw [if_pos tagged,lookupAppend]
      by_cases same : t = x.tag
      · simp [same]
      · simp [same,Ne.symm same]

theorem splitBaseline (instances : List Instance) :
    (split instances).2 = instances.filter (fun x => x.tag == "") := by
  induction instances using List.reverseRecOn with
  | nil => rfl
  | append_singleton instances x ih =>
    rw [splitConcat,List.filter_append,← ih]
    by_cases tagged : x.tag = ""
    · simp [tagged]
    · simp [tagged]

theorem splitTags (instances : List Instance) :
    t ∈ (split instances).1.map Prod.fst ↔ t ≠ "" ∧ ∃ x ∈ instances, x.tag = t := by
  induction instances using List.reverseRecOn with
  | nil => simp [split]
  | append_singleton instances x ih =>
    rw [splitConcat]
    by_cases tagged : x.tag = ""
    · rw [if_neg (not_not_intro tagged),ih]
      simp only [List.mem_append,List.mem_singleton]
      constructor
      · rintro ⟨some,y,mem,same⟩
        exact ⟨some,y,.inl mem,same⟩
      · rintro ⟨some,y,mem | rfl,same⟩
        · exact ⟨some,y,mem,same⟩
        · exact absurd (same ▸ tagged) some
    · rw [if_pos tagged,keysAppend,ih]
      simp only [List.mem_append,List.mem_singleton]
      constructor
      · rintro (⟨some,y,mem,same⟩ | rfl)
        · exact ⟨some,y,.inl mem,same⟩
        · exact ⟨tagged,x,.inr rfl,rfl⟩
      · rintro ⟨some,y,mem | rfl,same⟩
        · exact .inl ⟨some,y,mem,same⟩
        · exact .inr same.symm

end Split

section Build
variable {σ π : Type} (base : Base σ π)

def build (cache : σ) (result : Result) : σ × Picker π :=
  let tagged := (split result.instances).1
  let cache := if base.rebalancer && result.cacheable then base.rebalance cache result.baseline else cache
  let got := base.getPicker cache result.baseline
  (got.1,if tagged = [] then .base got.2 else .picker got.2 tagged (result.baseline.instances != []))

def pick (tagged : List (String × List Instance)) (count : Nat) : List String → Option Instance
  | [] => none
  | tag::rest =>
    let list := (tagged.lookup tag).getD []
    if list ≠ [] then list[(count+1) % 2^64 % list.length]? else pick tagged count rest

def Picker.next (p : Picker π) (ctx : Context) (count draw : Nat) : Option Instance :=
  match p with
  | .base b => base.next b ctx draw
  | .picker b tagged hasBaseline =>
    match pick tagged count (tagsOf ctx) with
    | some x => some x
    | none => if hasBaseline then base.next b ctx draw else none

end Build

def Active (active : List (List String)) (tags : List String) : Bool :=
  if tags = [] then false else active.any (fun set => tags.any (fun t => set.contains t))

structure Slot (α : Type) where
  version : Nat
  value : Option α

inductive Kind where
  | getPicker
  | rebalance
  | delete
  deriving DecidableEq, Repr

inductive Point (π : Type) where
  | load
  | build
  | store (p : Picker π)
  | deletePicker
  | deleteActive
  | deleteBase
  | leave
  | returned
  deriving DecidableEq, Repr

/- since is the newest change that had returned when the call began, got the picker a
GetPicker has returned and the version of its result; no step reads them. -/
structure Call (π : Type) where
  kind : Kind
  version : Nat
  result : Result
  point : Point π
  since : Nat
  got : Option (Nat × Picker π)

/- The cached picker and the active set of one key. Versions grow with the changes of the
instances; settled is the newest change whose call has returned, which no step reads. -/
structure State (σ π : Type) where
  pickers : Slot (Picker π)
  active : Slot (List String)
  base : σ
  settled : Nat
  calls : List (Call π)

def State.init {σ π : Type} (cache : σ) : State σ π := ⟨⟨0,none⟩,⟨0,none⟩,cache,0,[]⟩

def State.setCall {σ π : Type} (s : State σ π) (c : Nat) (call : Call π) : State σ π :=
  {s with calls := s.calls.set c call}

inductive Action where
  | call (kind : Kind) (version : Nat) (result : Result)
  | load (c : Nat)
  | build (c : Nat)
  | store (c : Nat)
  | deletePicker (c : Nat)
  | deleteActive (c : Nat)
  | deleteBase (c : Nat)
  | leave (c : Nat)
  deriving DecidableEq, Repr

def first {π : Type} (kind : Kind) (cacheable : Bool) : Point π :=
  match kind,cacheable with
  | .getPicker,true => .load
  | .getPicker,false => .build
  | .rebalance,true => .build
  | .delete,true => .deletePicker
  | _,false => .returned

section Steps
variable {σ π : Type} (base : Base σ π)

def step (s : State σ π) : Action → Option (State σ π)
  | .call kind version result => some {s with
      calls := s.calls ++ [⟨kind,version,result,first kind result.cacheable,s.settled,none⟩]}
  | .load c => do
    let call ← s.calls[c]?
    match call.point,s.pickers.value with
    | .load,some p => some (s.setCall c {call with point := .returned,got := some (s.pickers.version,p)})
    | .load,none => some (s.setCall c {call with point := .build})
    | _,_ => none
  | .build c => do
    let call ← s.calls[c]?
    let built := Devroute.build base s.base call.result
    match call.point,call.result.cacheable with
    | .build,true =>
      some ({s with base := built.1,active := ⟨call.version,some call.result.active⟩}.setCall c
        {call with point := .store built.2})
    | .build,false =>
      some ({s with base := built.1}.setCall c {call with point := .returned,got := some (call.version,built.2)})
    | _,_ => none
  | .store c => do
    let call ← s.calls[c]?
    match call.point with
    | .store p =>
      let s := {s with pickers := ⟨call.version,some p⟩}
      if call.kind = .getPicker then some (s.setCall c {call with point := .returned,got := some (call.version,p)})
      else some (s.setCall c {call with point := .leave})
    | _ => none
  | .deletePicker c => do
    let call ← s.calls[c]?
    match call.point with
    | .deletePicker => some ({s with pickers := ⟨call.version,none⟩}.setCall c {call with point := .deleteActive})
    | _ => none
  | .deleteActive c => do
    let call ← s.calls[c]?
    match call.point with
    | .deleteActive => some ({s with active := ⟨call.version,none⟩}.setCall c {call with point := .deleteBase})
    | _ => none
  | .deleteBase c => do
    let call ← s.calls[c]?
    match call.point with
    | .deleteBase =>
      let cache := if base.rebalancer then base.delete s.base call.result else s.base
      some ({s with base := cache}.setCall c {call with point := .leave})
    | _ => none
  | .leave c => do
    let call ← s.calls[c]?
    match call.point with
    | .leave => some ({s with settled := max s.settled call.version}.setCall c {call with point := .returned})
    | _ => none

end Steps
end DevkitCommon.Devroute
