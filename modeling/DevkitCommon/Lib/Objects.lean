import Mathlib.Data.List.Sort

/-! A store of objects by their keys, in the order of the keys, as object storage documents
it: an object is put, replaced or deleted as a whole, and a listing gives the first keys of
a kind in order. -/
namespace DevkitCommon.Objects
variable {κ β γ : Type} [LinearOrder κ]

def Ordered (l : List (κ × β)) : Prop := l.Pairwise (fun a b => a.1 < b.1)

structure Store (κ β : Type) [LinearOrder κ] where
  entries : List (κ × β)
  ordered : Ordered entries

def insert (k : κ) (b : β) : List (κ × β) → List (κ × β)
  | [] => [(k,b)]
  | e::rest => if k < e.1 then (k,b)::e::rest else if k = e.1 then (k,b)::rest else e::insert k b rest

def remove (k : κ) (l : List (κ × β)) : List (κ × β) := l.filter (fun e => e.1 ≠ k)

variable {k m : κ} {b c : β} {l : List (κ × β)}

theorem insertAbove {e : κ × β} (above : ∀ a ∈ l, e.1 < a.1) (least : e.1 < k) : ∀ a ∈ insert k b l, e.1 < a.1 := by
  induction l with
  | nil =>
    intro a mem
    cases List.mem_singleton.mp mem
    exact least
  | cons d rest ih =>
    have first := above d List.mem_cons_self
    have more : ∀ a ∈ rest, e.1 < a.1 := fun a mem => above a (List.mem_cons_of_mem _ mem)
    intro a mem
    rw [insert] at mem
    split at mem
    · obtain rfl | mem := List.mem_cons.mp mem
      · exact least
      · exact above a mem
    · split at mem
      · obtain rfl | mem := List.mem_cons.mp mem
        · exact least
        · exact more a mem
      · obtain rfl | mem := List.mem_cons.mp mem
        · exact first
        · exact ih more a mem

theorem insertOrdered (ordered : Ordered l) : Ordered (insert k b l) := by
  induction l with
  | nil => exact List.pairwise_singleton _ _
  | cons e rest ih =>
    obtain ⟨above,tail⟩ := List.pairwise_cons.mp ordered
    rw [insert]
    split
    · rename_i less
      refine List.pairwise_cons.mpr ⟨fun a mem => ?_,ordered⟩
      obtain rfl | mem := List.mem_cons.mp mem
      · exact less
      · exact less.trans (above a mem)
    · rename_i least
      split
      · rename_i same
        exact List.pairwise_cons.mpr ⟨fun a mem => same ▸ above a mem,tail⟩
      · rename_i other
        exact List.pairwise_cons.mpr ⟨insertAbove above (lt_of_le_of_ne (not_lt.mp least) (Ne.symm other)),ih tail⟩

theorem memInsert (ordered : Ordered l) : (m,c) ∈ insert k b l ↔ m = k ∧ c = b ∨ m ≠ k ∧ (m,c) ∈ l := by
  induction l with
  | nil =>
    rw [insert,List.mem_singleton,Prod.mk.injEq]
    exact ⟨Or.inl,fun found => found.resolve_right fun both => List.not_mem_nil both.2⟩
  | cons e rest ih =>
    obtain ⟨above,tail⟩ := List.pairwise_cons.mp ordered
    rw [insert]
    split
    · rename_i less
      have absent : (k,c) ∉ e::rest := by
        intro mem
        obtain rfl | mem := List.mem_cons.mp mem
        · exact lt_irrefl _ less
        · exact lt_irrefl _ (less.trans (above _ mem))
      rw [List.mem_cons,Prod.mk.injEq]
      constructor
      · rintro (found | mem)
        · exact .inl found
        · exact .inr ⟨fun same => absent (same ▸ mem),mem⟩
      · exact Or.imp_right And.right
    · split
      · rename_i same
        subst same
        rw [List.mem_cons,Prod.mk.injEq,List.mem_cons]
        constructor
        · rintro (found | mem)
          · exact .inl found
          · exact .inr ⟨(above _ mem).ne',.inr mem⟩
        · rintro (found | ⟨other,rfl | mem⟩)
          · exact .inl found
          · exact absurd rfl other
          · exact .inr mem
      · rename_i other
        rw [List.mem_cons,ih tail,List.mem_cons]
        constructor
        · rintro (rfl | found | ⟨apart,mem⟩)
          · exact .inr ⟨Ne.symm other,.inl rfl⟩
          · exact .inl found
          · exact .inr ⟨apart,.inr mem⟩
        · rintro (found | ⟨apart,rfl | mem⟩)
          · exact .inr (.inl found)
          · exact .inl rfl
          · exact .inr (.inr ⟨apart,mem⟩)

theorem memRemove : (m,c) ∈ remove k l ↔ m ≠ k ∧ (m,c) ∈ l := by
  rw [remove,List.mem_filter,decide_eq_true_iff,and_comm]

theorem orderedExt {l m : List (κ × β)} (first : Ordered l) (second : Ordered m) (same : ∀ e, e ∈ l ↔ e ∈ m) : l = m := by
  have _ : Std.Antisymm (fun a b : κ × β => a.1 < b.1) := ⟨fun _ _ less more => absurd (less.trans more) (lt_irrefl _)⟩
  have _ : Std.Irrefl (fun a b : κ × β => a.1 < b.1) := ⟨fun _ => lt_irrefl _⟩
  exact List.Pairwise.eq_of_mem_iff first second same

namespace Store
variable (s : Store κ β)

def empty : Store κ β := ⟨[],List.Pairwise.nil⟩
def put (k : κ) (b : β) : Store κ β := ⟨insert k b s.entries,insertOrdered s.ordered⟩
def delete (k : κ) : Store κ β := ⟨remove k s.entries,s.ordered.filter _⟩
def get (k : κ) : Option β := s.entries.lookup k

def list (kind : κ → Bool) (most : Nat) : List (κ × β) := (s.entries.filter (fun e => kind e.1)).take most

variable {s}

theorem memPut : (m,c) ∈ (s.put k b).entries ↔ m = k ∧ c = b ∨ m ≠ k ∧ (m,c) ∈ s.entries := memInsert s.ordered
theorem memDelete : (m,c) ∈ (s.delete k).entries ↔ m ≠ k ∧ (m,c) ∈ s.entries := memRemove

theorem getIff : s.get k = some b ↔ (k,b) ∈ s.entries := by
  have found {l : List (κ × β)} (ordered : Ordered l) : l.lookup k = some b ↔ (k,b) ∈ l := by
    induction l with
    | nil => exact iff_of_false (fun none => by cases none) List.not_mem_nil
    | cons e rest ih =>
      obtain ⟨above,tail⟩ := List.pairwise_cons.mp ordered
      rw [List.lookup_cons,List.mem_cons]
      by_cases same : k = e.1
      · subst same
        simp only [beq_self_eq_true,Option.some.injEq]
        constructor
        · rintro rfl
          exact .inl rfl
        · rintro (here | mem)
          · rw [← here]
          · exact absurd (above _ mem) (lt_irrefl _)
      · rw [beq_eq_false_iff_ne.mpr same]
        refine (ih tail).trans ⟨Or.inr,fun mem => mem.resolve_left fun here => same (here ▸ rfl)⟩
  exact found s.ordered

end Store
end DevkitCommon.Objects
