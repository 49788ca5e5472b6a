import DevkitCommon.Authx.Token
import DevkitCommon.Lib.Text
import Mathlib.Data.List.Nodup

/-! The IDL generations of a release and the dependency gate: what an instance registers of
them, and what a service that starts finds unmet about the services it calls. -/
namespace DevkitCommon.Kitexx.IdlDeps
open Authx Text

/- The content of idl.deps: a service and its generation, and the generation each service it
calls had when the client was generated. -/
structure IDLDeps where
  self : String
  selfGen : Int
  deps : List (String × Int)
  small : fits 64 selfGen = true
  once : (deps.map Prod.fst).Nodup
  deriving DecidableEq

def metaIDLGen : String := "idl.gen"
def metaIDLDeps : String := "idl.deps"

structure Instance where
  addr : String
  metadata : List (String × String)
  deriving DecidableEq, Repr

namespace IDLDeps
variable (d : IDLDeps)

def empty : Bool := d.self == ""

def depNames : List String := (d.deps.map Prod.fst).mergeSort (fun a b => decide (a ≤ b))

def need (name : String) : Int := (d.deps.lookup name).getD 0

def joined : String := ",".intercalate d.depNames

def metadata : List (String × String) :=
  if d.empty then []
  else (metaIDLGen,formatInt d.selfGen)::if d.depNames = [] then [] else [(metaIDLDeps,d.joined)]

end IDLDeps

def containsName (list name : String) : Bool :=
  (list.toList.splitOn ',').any (fun n => trimSpace (String.ofList n) == name.toList)

inductive Unmet where
  | failed (name err : String)
  | missing (name : String)
  | tooOld (name addr : String) (gen need : Int)
  deriving DecidableEq, Repr

def Unmet.text : Unmet → String
  | .failed name err => name ++ ": " ++ err
  | .missing name => name ++ ": no usable instance registered"
  | .tooOld name addr gen need => name ++ " at " ++ addr ++ " is at IDL generation " ++ formatInt gen ++
      ", this release needs " ++ formatInt need

inductive Warning where
  | cycle (name self : String)
  | noGen (name addr : String)
  | notNumber (name addr raw : String)
  deriving DecidableEq, Repr

def Warning.text : Warning → String
  | .cycle name self => name ++ " depends on " ++ self ++ " too: not waited for (a cycle would wait forever)"
  | .noGen name addr => name ++ " at " ++ addr ++ " registers no " ++ metaIDLGen ++ " (built before idl.deps): not waited for"
  | .notNumber name addr raw => name ++ " at " ++ addr ++ " registers " ++ metaIDLGen ++ "=" ++ Text.quote raw ++
      ", not a number: not waited for"

section Gate
variable (d : IDLDeps)

/- The loop over the instances of one service. The first one that depends on this service too
ends it; what the ones before it lack stays. -/
def judge (name : String) (need : Int) : List Instance → List Unmet × List Warning
  | [] => ([],[])
  | x::rest =>
    let theirs := (x.metadata.lookup metaIDLDeps).getD ""
    if theirs ≠ "" ∧ d.self ≠ "" ∧ containsName theirs d.self then ([],[.cycle name d.self])
    else
      let more := judge name need rest
      match x.metadata.lookup metaIDLGen with
      | none => (more.1,.noGen name x.addr::more.2)
      | some raw =>
        match parseInt 64 raw with
        | none => (more.1,.notNumber name x.addr raw::more.2)
        | some gen => if gen < need then (.tooOld name x.addr gen need::more.1,more.2) else more

abbrev Lookup := String → Except String (List Instance)

def unmetOf (lookup : Lookup) (name : String) : List Unmet × List Warning :=
  match lookup name with
  | .error err => ([.failed name err],[])
  | .ok list => if list = [] then ([.missing name],[]) else judge d name (d.need name) list

def unmet (lookup : Lookup) : List Unmet × List Warning :=
  (d.depNames.flatMap (fun n => (unmetOf d lookup n).1),d.depNames.flatMap (fun n => (unmetOf d lookup n).2))

def opens (lookup : Lookup) : Bool := d.empty || d.deps = [] || (unmet d lookup).1 = []

end Gate

def Unmet.name : Unmet → String
  | .failed name _ => name
  | .missing name => name
  | .tooOld name _ _ _ => name

section Judged
variable {d old : IDLDeps} {name : String} {need : Int} {list : List Instance} {lookup : Lookup} {u : Unmet}

theorem memNames : name ∈ d.depNames ↔ name ∈ d.deps.map Prod.fst := List.mem_mergeSort

theorem judgeName (mem : u ∈ (judge d name need list).1) : u.name = name := by
  induction list with
  | nil => exact absurd mem List.not_mem_nil
  | cons x rest ih =>
    unfold judge at mem
    dsimp only at mem
    split at mem
    · exact absurd mem List.not_mem_nil
    split at mem
    · exact ih mem
    split at mem
    · exact ih mem
    split at mem
    · obtain rfl | later := List.mem_cons.mp mem
      · rfl
      · exact ih later
    · exact ih mem

theorem unmetName (mem : u ∈ (unmetOf d lookup name).1) : u.name = name := by
  unfold unmetOf at mem
  split at mem
  · cases List.mem_singleton.mp mem
    rfl
  split at mem
  · cases List.mem_singleton.mp mem
    rfl
  · exact judgeName mem

def Outdated (old d : IDLDeps) (need : Int) : Prop :=
  old.self ≠ "" ∧ containsName old.joined d.self = false ∧ old.selfGen < need
instance (old d : IDLDeps) (need : Int) : Decidable (Outdated old d need) := by unfold Outdated; infer_instance

theorem containsEmpty (some' : d.self ≠ "") : containsName "" d.self = false := by
  simpa [containsName,trimSpace] using some'

theorem listsJoined (some' : old.self ≠ "") : (old.metadata.lookup metaIDLDeps).getD "" = old.joined := by
  have named : old.empty = false := beq_eq_false_iff_ne.mpr some'
  have other : (metaIDLDeps == metaIDLGen) = false := by decide
  unfold IDLDeps.metadata
  rw [named,if_neg Bool.false_ne_true,List.lookup_cons,other]
  cases none' : old.depNames with
  | nil => simp [IDLDeps.joined,none']
  | cons => simp

theorem gensSelf (some' : old.self ≠ "") : old.metadata.lookup metaIDLGen = some (formatInt old.selfGen) := by
  have named : old.empty = false := beq_eq_false_iff_ne.mpr some'
  unfold IDLDeps.metadata
  rw [named,if_neg Bool.false_ne_true,List.lookup_cons_self]

theorem nothingEmpty (none' : old.self = "") : old.metadata = [] := by
  unfold IDLDeps.metadata
  rw [IDLDeps.empty,none',beq_self_eq_true,if_pos rfl]

theorem judgeAlike (some' : d.self ≠ "") (alike : ∀ x ∈ list, x.metadata = old.metadata) :
    (judge d name need list).1 =
      if Outdated old d need then list.map (fun x => .tooOld name x.addr old.selfGen need) else [] := by
  induction list with
  | nil => simp [judge]
  | cons x rest ih =>
    have same := alike x List.mem_cons_self
    have tail := ih (fun y mem => alike y (List.mem_cons_of_mem _ mem))
    unfold judge
    dsimp only
    rw [same]
    by_cases named : old.self = ""
    · -- built before idl.deps
      have none' : ¬ Outdated old d need := fun outdated => outdated.1 named
      rw [nothingEmpty named]
      simpa [none'] using tail
    rw [listsJoined named,gensSelf named]
    cases lists : containsName old.joined d.self with
    | true =>
      have some'' : old.joined ≠ "" := by
        intro blank
        rw [blank,containsEmpty some'] at lists
        contradiction
      have none' : ¬ Outdated old d need := fun outdated => absurd (outdated.2.1.symm.trans lists) Bool.false_ne_true
      rw [if_pos ⟨some'',some',rfl⟩,if_neg none']
    | false =>
      have open' : ¬ (old.joined ≠ "" ∧ d.self ≠ "" ∧ (false : Bool) = true) := fun both => absurd both.2.2 Bool.false_ne_true
      rw [if_neg open']
      simp only [parseFormat old.small]
      by_cases lower : old.selfGen < need
      · have outdated : Outdated old d need := ⟨named,lists,lower⟩
        simp only [if_pos lower,tail,if_pos outdated,List.map_cons]
      · have none' : ¬ Outdated old d need := fun outdated => lower outdated.2.2
        simp only [if_neg lower,tail,if_neg none']

theorem memUnmet (mem : u ∈ (unmet d lookup).1) : u ∈ (unmetOf d lookup u.name).1 ∧ u.name ∈ d.depNames := by
  obtain ⟨n,asked,inside⟩ := List.mem_flatMap.mp mem
  rw [unmetName inside]
  exact ⟨inside,asked⟩

theorem unmetMem (asked : name ∈ d.depNames) (mem : u ∈ (unmetOf d lookup name).1) : u ∈ (unmet d lookup).1 :=
  List.mem_flatMap.mpr ⟨name,asked,mem⟩

end Judged
end DevkitCommon.Kitexx.IdlDeps
