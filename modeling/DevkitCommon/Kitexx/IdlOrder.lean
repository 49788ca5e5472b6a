import DevkitCommon.Kitexx.IdlDeps
import Mathlib.Data.List.TakeWhile
import Mathlib.Logic.Function.Basic

/-! Whether a dependency is unmet, and the order in which the registry lists its instances:
the first instance that depends on this service too ends the loop, so what it hides depends
on what comes before it. -/
namespace DevkitCommon.Kitexx.IdlDeps
open Authx Text

def cyclic (d : IDLDeps) (x : Instance) : Bool :=
  let theirs := (x.metadata.lookup metaIDLDeps).getD ""
  theirs != "" && d.self != "" && containsName theirs d.self

def tooOld (need : Int) (x : Instance) : Bool :=
  match (x.metadata.lookup metaIDLGen).bind (parseInt 64) with
  | some gen => gen < need
  | none => false

def Reported (d : IDLDeps) (lookup : Lookup) (name : String) : Prop := ∃ u ∈ (unmet d lookup).1, u.name = name

def Mixed (d : IDLDeps) (need : Int) (list : List Instance) : Prop :=
  (∃ x ∈ list, cyclic d x = true) ∧ ∃ x ∈ list, cyclic d x = false ∧ tooOld need x = true

variable {d : IDLDeps} {lookup : Lookup} {name : String} {need : Int} {list list' : List Instance}

theorem judgeSome : (judge d name need list).1 ≠ [] ↔ ∃ x ∈ list.takeWhile (fun x => !cyclic d x), tooOld need x = true := by
  induction list with
  | nil => simp [judge]
  | cons x rest ih =>
    unfold judge
    dsimp only
    split
    · rename_i ends
      have found : cyclic d x = true := by
        simp only [cyclic,Bool.and_eq_true,bne_iff_ne,ne_eq]
        exact ⟨⟨ends.1,ends.2.1⟩,ends.2.2⟩
      rw [List.takeWhile_cons_of_neg (by rw [found]; exact Bool.false_ne_true)]
      simp
    · rename_i goes
      have passed : cyclic d x = false := by
        refine eq_false_of_ne_true fun found => goes ?_
        simp only [cyclic,Bool.and_eq_true,bne_iff_ne,ne_eq] at found
        exact ⟨found.1.1,found.1.2,found.2⟩
      rw [List.takeWhile_cons_of_pos (by rw [passed]; rfl),List.exists_mem_cons_iff,← ih]
      split
      · rename_i none'
        simp [tooOld,none']
      · rename_i raw some'
        split
        · rename_i none'
          simp [tooOld,some',none']
        · rename_i gen parsed
          split
          · rename_i lower
            simp [tooOld,some',parsed,lower]
          · rename_i enough
            simp [tooOld,some',parsed,enough]

theorem judgePlain (plain : ∀ x ∈ list, cyclic d x = false) :
    (judge d name need list).1 ≠ [] ↔ ∃ x ∈ list, tooOld need x = true := by
  rw [judgeSome,List.takeWhile_eq_self_iff.mpr (fun x mem => by rw [plain x mem]; rfl)]

theorem judgeNone (none' : ∀ x ∈ list, cyclic d x = false → tooOld need x = false) :
    (judge d name need list).1 = [] := by
  refine Decidable.byContradiction fun some' => ?_
  obtain ⟨x,mem,old⟩ := judgeSome.mp some'
  have passed := List.mem_takeWhile_imp mem
  have inside : x ∈ list := (List.takeWhile_subset _) mem
  exact Bool.noConfusion ((none' x inside (by simpa using passed)).symm.trans old)

theorem judgeOrder : (∀ list', list'.Perm list → ((judge d name need list').1 ≠ [] ↔ (judge d name need list).1 ≠ [])) ↔
    ¬Mixed d need list := by
  constructor
  · rintro same ⟨⟨x,mem,ends⟩,y,mem',passed,old⟩
    have hidden : ¬(judge d name need (x::list.erase x)).1 ≠ [] := by
      rw [judgeSome,List.takeWhile_cons_of_neg (by rw [ends]; exact Bool.false_ne_true)]
      simp
    have shown : (judge d name need (y::list.erase y)).1 ≠ [] := by
      rw [judgeSome,List.takeWhile_cons_of_pos (by rw [passed]; rfl)]
      exact ⟨y,List.mem_cons_self,old⟩
    have first := same _ (List.perm_cons_erase mem).symm
    have second := same _ (List.perm_cons_erase mem').symm
    exact hidden (first.mpr (second.mp shown))
  · intro apart list' perm
    by_cases cycles : ∃ x ∈ list, cyclic d x = true
    · have none' : ∀ x ∈ list, cyclic d x = false → tooOld need x = false := fun x mem passed =>
        eq_false_of_ne_true fun old => apart ⟨cycles,x,mem,passed,old⟩
      rw [judgeNone none',judgeNone (fun x mem => none' x (perm.mem_iff.mp mem))]
    · have plain : ∀ x ∈ list, cyclic d x = false := fun x mem => eq_false_of_ne_true fun ends => cycles ⟨x,mem,ends⟩
      rw [judgePlain plain,judgePlain (fun x mem => plain x (perm.mem_iff.mp mem))]
      simp only [perm.mem_iff]

theorem reportedIff : Reported d lookup name ↔ name ∈ d.depNames ∧ (unmetOf d lookup name).1 ≠ [] := by
  constructor
  · rintro ⟨u,mem,rfl⟩
    obtain ⟨inside,asked⟩ := memUnmet mem
    exact ⟨asked,List.ne_nil_of_mem inside⟩
  · rintro ⟨asked,some'⟩
    obtain ⟨u,mem⟩ := List.exists_mem_of_ne_nil _ some'
    exact ⟨u,unmetMem asked mem,unmetName mem⟩

theorem unmetListed (found : lookup name = .ok list) :
    (unmetOf d lookup name).1 ≠ [] ↔ list = [] ∨ (judge d name (d.need name) list).1 ≠ [] := by
  unfold unmetOf
  rw [found]
  dsimp only
  split
  · rename_i none'
    simp [none']
  · rename_i some'
    simp [some']

theorem orderFree (d : IDLDeps) (lookup : Lookup) (name : String) :
    (∀ list list', lookup name = .ok list → list'.Perm list →
      (Reported d (Function.update lookup name (.ok list')) name ↔ Reported d lookup name)) ↔
    (name ∈ d.depNames → ∀ list, lookup name = .ok list → ¬Mixed d (d.need name) list) := by
  have verdict {list list' : List Instance} (found : lookup name = .ok list) (perm : list'.Perm list) (asked : name ∈ d.depNames) :
      (Reported d (Function.update lookup name (.ok list')) name ↔ Reported d lookup name) ↔
        ((judge d name (d.need name) list').1 ≠ [] ↔ (judge d name (d.need name) list).1 ≠ []) := by
    rw [reportedIff,reportedIff,unmetListed found,unmetListed (Function.update_self ..)]
    cases list with
    | nil => cases perm.eq_nil; simp
    | cons x rest =>
      have some' : list' ≠ [] := fun none' => by rw [none'] at perm; exact absurd perm.symm.eq_nil (List.cons_ne_nil _ _)
      simp only [asked,some',List.cons_ne_nil,false_or,true_and]
  constructor
  · intro same asked list found
    exact judgeOrder.mp fun list' perm => (verdict found perm asked).mp (same list list' found perm)
  · intro apart list list' found perm
    by_cases asked : name ∈ d.depNames
    · exact (verdict found perm asked).mpr (judgeOrder.mpr (apart asked list found) list' perm)
    · rw [reportedIff,reportedIff]
      exact ⟨fun both => absurd both.1 asked,fun both => absurd both.1 asked⟩

def rollout : List Instance :=
  [⟨"10.0.0.1:80",[(metaIDLGen,"1")]⟩,⟨"10.0.0.2:80",[(metaIDLGen,"2"),(metaIDLDeps,"ser-a")]⟩]

theorem orderDecides : ¬∀ (d : IDLDeps) (lookup : Lookup) (name : String) (list list' : List Instance),
    name ∈ d.depNames → lookup name = .ok list → list'.Perm list →
      (Reported d (Function.update lookup name (.ok list')) name ↔ Reported d lookup name) := by
  intro all
  let d : IDLDeps := ⟨"ser-a",5,[("ser-b",2)],by decide,by decide⟩
  have same := all d (fun _ => .ok rollout) "ser-b" rollout rollout.reverse (by decide +kernel) rfl (List.reverse_perm _)
  have shown : Reported d (fun _ => .ok rollout) "ser-b" :=
    ⟨.tooOld "ser-b" "10.0.0.1:80" 1 2,by decide +kernel,rfl⟩
  obtain ⟨u,mem,-⟩ := same.mpr shown
  have none' : (unmet d (Function.update (fun _ => .ok rollout) "ser-b" (.ok rollout.reverse))).1 = [] := by decide +kernel
  rw [none'] at mem
  exact absurd mem List.not_mem_nil

end DevkitCommon.Kitexx.IdlDeps
