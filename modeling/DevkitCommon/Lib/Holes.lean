import Mathlib.Data.List.Basic

/-! Two texts that are alike but for what fills their holes: what fills them shows when they
differ there, and a part between separators that is too short for a filling has nothing of it. -/
namespace DevkitCommon.Holes
variable {α : Type}

/- The flag tells that there is a hole; in the one text stands x there, in the other y. -/
inductive Filled (H : List α → List α → Prop) : Bool → List α → List α → Prop where
  | nil : Filled H false [] []
  | char {b c s t} (more : Filled H b s t) : Filled H b (c::s) (c::t)
  | hole {b x y s t} (is : H x y) (more : Filled H b s t) : Filled H true (x ++ s) (y ++ t)

variable {H : List α → List α → Prop} {a b : Bool} {s t u v x y : List α}

theorem filledPlain (s : List α) : Filled H false s s := by
  induction s with
  | nil => exact .nil
  | cons c s ih => exact .char ih

theorem filledHole (is : H x y) : Filled H true x y := by
  have whole := Filled.hole is (.nil : Filled H false [] [])
  rwa [List.append_nil,List.append_nil] at whole

theorem filledAppend (first : Filled H a s t) (more : Filled H b u v) : Filled H (a || b) (s ++ u) (t ++ v) := by
  induction first with
  | nil => exact more
  | char _ ih => exact .char ih
  | hole is _ ih =>
    rw [List.append_assoc,List.append_assoc]
    exact .hole is ih

theorem filledFront (first : Filled H a s t) (s' : List α) : Filled H a (s' ++ s) (s' ++ t) := by
  have whole := filledAppend (filledPlain s') first
  rwa [Bool.false_or] at whole

theorem filledBack (first : Filled H a s t) (s' : List α) : Filled H a (s ++ s') (t ++ s') := by
  have whole := filledAppend first (filledPlain s')
  rwa [Bool.or_false] at whole

theorem filledSame (differ : ∀ x y, H x y → ∀ u v, x ++ u ≠ y ++ v) (is : Filled H b s t) (same : s = t) : b = false := by
  induction is with
  | nil => rfl
  | char _ ih => exact ih (List.cons.inj same).2
  | hole is => exact absurd same (differ _ _ is _ _)

structure Piece (H : List α → List α → Prop) where
  hole : Bool
  one : List α
  other : List α
  filled : Filled H hole one other

theorem filledJoin (sep : List α) (zs : List (Piece H)) :
    Filled H (zs.any Piece.hole) (sep.intercalate (zs.map Piece.one)) (sep.intercalate (zs.map Piece.other)) := by
  induction zs with
  | nil => exact .nil
  | cons z zs ih =>
    cases zs with
    | nil =>
      rw [List.map_singleton,List.map_singleton,List.intercalate_singleton,List.intercalate_singleton]
      rw [List.any_cons,List.any_nil,Bool.or_false]
      exact z.filled
    | cons w zs =>
      rw [List.map_cons,List.map_cons,List.map_cons,List.map_cons,List.intercalate_cons_cons,List.intercalate_cons_cons]
      exact filledAppend (filledBack z.filled sep) ih

section Parts
variable {p : α → Bool} {long : List α → Prop}

theorem splitFront {c : α} {f : List α} {fs : List (List α)} (cut : s.splitOnP p = f::fs) :
    (c::s).splitOnP p = if p c then []::f::fs else (c::f)::fs := by
  rw [List.splitOnP_cons_eq_if_modifyHead,cut]
  rfl

theorem splitAfter (x : List α) {f : List α} {fs : List (List α)} (cut : s.splitOnP p = f::fs) :
    ∃ g gs, (x ++ s).splitOnP p = g::gs ∧ ∀ w ∈ fs, w ∈ gs := by
  induction x with
  | nil => exact ⟨f,fs,cut,fun _ mem => mem⟩
  | cons c x ih =>
    obtain ⟨g,gs,is,kept⟩ := ih
    rw [List.cons_append,splitFront is]
    cases p c with
    | true => exact ⟨[],g::gs,rfl,fun w mem => List.mem_cons_of_mem g (kept w mem)⟩
    | false => exact ⟨c::g,gs,rfl,kept⟩

theorem splitBare {f : List α} {fs : List (List α)} (bare : ∀ c ∈ x, p c = false) (cut : s.splitOnP p = f::fs) :
    (x ++ s).splitOnP p = (x ++ f)::fs := by
  induction x with
  | nil => exact cut
  | cons c x ih =>
    rw [List.cons_append,splitFront (ih fun d mem => bare d (List.mem_cons_of_mem c mem)),bare c List.mem_cons_self]
    rfl

structure Long (H : List α → List α → Prop) (p : α → Bool) (long : List α → Prop) : Prop where
  bare : ∀ x y, H x y → ∀ c ∈ x, p c = false
  fills : ∀ x y, H x y → ∀ u, long (x ++ u)
  grows : ∀ c u, long u → long (c::u)

theorem partsKeep (fits : Long H p long) (is : Filled H b s t) : ∃ f fs g gs, s.splitOnP p = f::fs ∧ t.splitOnP p = g::gs ∧
    (f = g ∨ long f) ∧ ∀ w ∈ fs, w ∈ gs ∨ long w := by
  induction is with
  | nil => exact ⟨[],[],[],[],List.splitOnP_nil,List.splitOnP_nil,.inl rfl,fun _ mem => absurd mem List.not_mem_nil⟩
  | char more ih =>
    rename_i c s t
    obtain ⟨f,fs,g,gs,left,right,first,later⟩ := ih
    rw [splitFront left,splitFront right]
    cases p c with
    | true =>
      refine ⟨[],f::fs,[],g::gs,rfl,rfl,.inl rfl,fun w mem => ?_⟩
      rcases List.mem_cons.mp mem with rfl | mem
      · exact first.elim (fun same => .inl (List.mem_cons.mpr (.inl same))) .inr
      · exact (later w mem).imp (List.mem_cons_of_mem g) id
    | false =>
      exact ⟨c::f,fs,c::g,gs,rfl,rfl,first.imp (congrArg _) (fits.grows c f),later⟩
  | hole is more ih =>
    rename_i x y s t
    obtain ⟨f,fs,g,gs,left,right,first,later⟩ := ih
    obtain ⟨g',gs',right',kept⟩ := splitAfter y right
    exact ⟨x ++ f,fs,g',gs',splitBare (fits.bare _ _ is) left,right',.inr (fits.fills _ _ is f),
      fun w mem => (later w mem).imp (kept w) id⟩

theorem partKept (fits : Long H p long) (is : Filled H b s t) {w : List α} (part : w ∈ s.splitOnP p) (short : ¬ long w) :
    w ∈ t.splitOnP p := by
  obtain ⟨f,fs,g,gs,left,right,first,later⟩ := partsKeep fits is
  rw [left] at part
  rw [right]
  rcases List.mem_cons.mp part with rfl | mem
  · exact first.elim (fun same => same ▸ List.mem_cons_self) fun is => absurd is short
  · exact (later w mem).elim (List.mem_cons_of_mem g) fun is => absurd is short

end Parts
end DevkitCommon.Holes
