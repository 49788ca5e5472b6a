import Mathlib.Data.List.Nodup

/-! A map as the list of its pairs. -/
namespace DevkitCommon.Pairs
variable {κ β : Type} [BEq κ] [LawfulBEq κ] {l xs : List (κ × β)} {k : κ} {v : β}

theorem lookupMem (found : l.lookup k = some v) : (k,v) ∈ l := by
  obtain ⟨front,back,rfl,-⟩ := List.lookup_eq_some_iff.mp found
  exact List.mem_append_right _ List.mem_cons_self

theorem lookupAbsent : l.lookup k = none ↔ k ∉ l.map Prod.fst := by
  rw [List.lookup_eq_none_iff]
  constructor
  · intro other mem
    obtain ⟨e,there,rfl⟩ := List.mem_map.mp mem
    exact bne_iff_ne.mp (other e there) rfl
  · intro absent e mem
    exact bne_iff_ne.mpr fun same => absent (same ▸ List.mem_map_of_mem mem)

theorem lookupIff (once : (l.map Prod.fst).Nodup) : l.lookup k = some v ↔ (k,v) ∈ l := by
  refine ⟨lookupMem,fun mem => ?_⟩
  induction l with
  | nil => exact absurd mem List.not_mem_nil
  | cons e l ih =>
    obtain ⟨j,w⟩ := e
    obtain ⟨new,more⟩ := List.nodup_cons.mp once
    rcases List.mem_cons.mp mem with same | there
    · cases same
      exact List.lookup_cons_self
    · have own : k ∈ l.map Prod.fst := List.mem_map_of_mem there
      have other : (k == j) = false := beq_eq_false_iff_ne.mpr fun same => new (same ▸ own)
      rw [List.lookup_cons,other]
      exact ih more there

omit [LawfulBEq κ] in
theorem lookupBefore (found : xs.lookup k = some v) (ys : List (κ × β)) : (xs ++ ys).lookup k = some v := by
  rw [List.lookup_append,found]
  rfl

omit [LawfulBEq κ] in
theorem lookupAfter (absent : xs.lookup k = none) (ys : List (κ × β)) : (xs ++ ys).lookup k = ys.lookup k := by
  rw [List.lookup_append,absent]
  rfl

end DevkitCommon.Pairs
