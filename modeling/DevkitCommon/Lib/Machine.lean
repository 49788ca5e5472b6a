import Mathlib.Data.List.Basic

/-! Machines whose every choice stands in the action: a step is either not enabled
or has one result. What one step keeps is carried to whole runs here. Failures,
replies and the order of the parties are all part of the action list. -/
namespace DevkitCommon.Machine
variable {σ τ α : Type}

def run (step : σ → α → Option σ) : σ → List α → Option σ
  | s,[] => some s
  | s,a::rest => (step s a).bind (fun t => run step t rest)

/- Every enabled step of the run meets p in the state before it. The action that is
not enabled ends the run: nothing is asked of what would follow. -/
def Along (step : σ → α → Option σ) (p : σ → α → Prop) : σ → List α → Prop
  | _,[] => True
  | s,a::rest => match step s a with
    | none => True
    | some t => p s a ∧ Along step p t rest

instance decidableAlong (step : σ → α → Option σ) (p : σ → α → Prop) [∀ s a, Decidable (p s a)] :
    ∀ s as, Decidable (Along step p s as)
  | _,[] => isTrue trivial
  | s,a::rest => by
    unfold Along
    cases step s a with
    | none => exact isTrue trivial
    | some t => exact @instDecidableAnd _ _ _ (decidableAlong step p t rest)

def Reachable (step : σ → α → Option σ) (start s : σ) : Prop := ∃ as, run step start as = some s

variable {step : σ → α → Option σ} {p q : σ → α → Prop}

theorem runCons {s a rest u} :
    run step s (a::rest) = some u ↔ ∃ t, step s a = some t ∧ run step t rest = some u := by
  simp only [run,Option.bind_eq_some_iff]

theorem runAppend {s u} (as bs : List α) :
    run step s (as ++ bs) = some u ↔ ∃ t, run step s as = some t ∧ run step t bs = some u := by
  induction as generalizing s with
  | nil => simp [run]
  | cons a as ih =>
    rw [List.cons_append,runCons]
    constructor
    · rintro ⟨t,one,rest⟩
      obtain ⟨m,front,back⟩ := ih.mp rest
      exact ⟨m,runCons.mpr ⟨t,one,front⟩,back⟩
    · rintro ⟨m,front,back⟩
      obtain ⟨t,one,rest⟩ := runCons.mp front
      exact ⟨t,one,ih.mpr ⟨m,rest,back⟩⟩

theorem alongCons {s a rest t} (enabled : step s a = some t) :
    Along step p s (a::rest) ↔ p s a ∧ Along step p t rest := by
  simp only [Along,enabled]

theorem alongAppend {s t} {as bs : List α} (ok : run step s as = some t) (along : Along step p s (as ++ bs)) :
    Along step p s as ∧ Along step p t bs := by
  induction as generalizing s with
  | nil =>
    cases Option.some.inj ok
    exact ⟨trivial,along⟩
  | cons a rest ih =>
    obtain ⟨u,one,more⟩ := runCons.mp ok
    obtain ⟨here,later⟩ := (alongCons one).mp along
    obtain ⟨front,back⟩ := ih more later
    exact ⟨(alongCons one).mpr ⟨here,front⟩,back⟩

theorem alongConcat {s t} {as bs : List α} (ok : run step s as = some t) (front : Along step p s as)
    (back : Along step p t bs) : Along step p s (as ++ bs) := by
  induction as generalizing s with
  | nil =>
    cases Option.some.inj ok
    exact back
  | cons a rest ih =>
    obtain ⟨u,one,more⟩ := runCons.mp ok
    obtain ⟨here,later⟩ := (alongCons one).mp front
    exact (alongCons one).mpr ⟨here,ih more later⟩

/- The induction of every invariant: the condition of the run may be used at each step. -/
theorem runKeeps {inv : σ → Prop} (keep : ∀ {s a t}, inv s → p s a → step s a = some t → inv t)
    {s t as} (start : inv s) (along : Along step p s as) (ok : run step s as = some t) : inv t := by
  induction as generalizing s with
  | nil => cases Option.some.inj ok; exact start
  | cons a rest ih =>
    obtain ⟨u,one,more⟩ := runCons.mp ok
    obtain ⟨here,later⟩ := (alongCons one).mp along
    exact ih (keep start here one) later more

theorem alongKeeps {inv : σ → Prop} (keep : ∀ {s a t}, inv s → p s a → step s a = some t → inv t)
    (gives : ∀ {s a t}, inv s → p s a → step s a = some t → q s a)
    {s as} (start : inv s) (along : Along step p s as) : Along step q s as := by
  induction as generalizing s with
  | nil => trivial
  | cons a rest ih =>
    cases one : step s a with
    | none => simp only [Along,one]
    | some t =>
      obtain ⟨here,later⟩ := (alongCons one).mp along
      exact (alongCons one).mpr ⟨gives start here one,ih (keep start here one) later⟩

theorem alongWeaken (weaker : ∀ {s a t}, p s a → step s a = some t → q s a)
    {s as} (along : Along step p s as) : Along step q s as := by
  induction as generalizing s with
  | nil => trivial
  | cons a rest ih =>
    cases one : step s a with
    | none => simp only [Along,one]
    | some t =>
      obtain ⟨here,later⟩ := (alongCons one).mp along
      exact (alongCons one).mpr ⟨weaker here one,ih later⟩

theorem alongTrue (s : σ) (as : List α) : Along step (fun _ _ => True) s as := by
  induction as generalizing s with
  | nil => trivial
  | cons a rest ih =>
    cases one : step s a with
    | none => simp only [Along,one]
    | some t => exact (alongCons one).mpr ⟨trivial,ih t⟩

theorem alongForall {q : α → Prop} {as : List α} (all : ∀ a ∈ as, q a) (s : σ) :
    Along step (fun _ a => q a) s as := by
  induction as generalizing s with
  | nil => trivial
  | cons a rest ih =>
    cases one : step s a with
    | none => simp only [Along,one]
    | some t =>
      have later := ih (fun b mem => all b (List.mem_cons_of_mem _ mem)) t
      exact (alongCons one).mpr ⟨all a List.mem_cons_self,later⟩

theorem alongAnd {s as} (left : Along step p s as) (right : Along step q s as) :
    Along step (fun s a => p s a ∧ q s a) s as := by
  induction as generalizing s with
  | nil => trivial
  | cons a rest ih =>
    cases one : step s a with
    | none => simp only [Along,one]
    | some t =>
      obtain ⟨hp,lp⟩ := (alongCons one).mp left
      obtain ⟨hq,lq⟩ := (alongCons one).mp right
      exact (alongCons one).mpr ⟨⟨hp,hq⟩,ih lp lq⟩

theorem alongFails {s as} (breaks : ¬ Along step p s as) :
    ∃ u a v back, ¬ p u a ∧ step u a = some v ∧
      ∃ front, as = front ++ a::back ∧ run step s front = some u := by
  induction as generalizing s with
  | nil => exact absurd trivial breaks
  | cons a rest ih =>
    cases one : step s a with
    | none => exact absurd (by simp only [Along,one]) breaks
    | some m =>
      by_cases here : p s a
      · have later : ¬ Along step p m rest := fun along => breaks ((alongCons one).mpr ⟨here,along⟩)
        obtain ⟨u,b,v,back,fails,last,front,same,before⟩ := ih later
        exact ⟨u,b,v,back,fails,last,a::front,by rw [same,List.cons_append],runCons.mpr ⟨m,one,before⟩⟩
      · exact ⟨s,a,m,rest,here,one,[],rfl,rfl⟩

theorem alongBreaks {s t as} (breaks : ¬ Along step p s as) (ok : run step s as = some t) :
    ∃ u a v back, ¬ p u a ∧ step u a = some v ∧ run step v back = some t ∧
      ∃ front, as = front ++ a::back ∧ run step s front = some u := by
  obtain ⟨u,a,v,back,fails,one,front,same,before⟩ := alongFails breaks
  rw [same] at ok
  obtain ⟨m,first,more⟩ := (runAppend front (a::back)).mp ok
  cases Option.some.inj (before.symm.trans first)
  obtain ⟨w,again,ends⟩ := runCons.mp more
  cases Option.some.inj (one.symm.trans again)
  exact ⟨u,a,v,back,fails,one,ends,front,same,before⟩

theorem everyIff {good : σ → Prop} {s}
    (keeps : ∀ {as t}, Along step p s as → run step s as = some t → good t)
    (fails : ∀ {u a v}, Reachable step s u → ¬ p u a → step u a = some v → ¬ good v) (as : List α) :
    (∀ front back t, as = front ++ back → run step s front = some t → good t) ↔ Along step p s as := by
  constructor
  · intro all
    refine Classical.byContradiction fun breaks => ?_
    obtain ⟨u,a,v,back,bad,one,front,same,before⟩ := alongFails breaks
    have reached : run step s (front ++ [a]) = some v :=
      (runAppend front [a]).mpr ⟨u,before,runCons.mpr ⟨v,one,rfl⟩⟩
    exact fails ⟨front,before⟩ bad one (all (front ++ [a]) back v (by simpa using same) reached)
  · intro along front back t same ok
    rw [same] at along
    exact keeps (alongAppend ok along).1 ok

theorem reachableKeeps {inv : σ → Prop} (keep : ∀ {s a t}, inv s → step s a = some t → inv t)
    {s t} (start : inv s) (ok : Reachable step s t) : inv t := by
  obtain ⟨as,ok⟩ := ok
  exact runKeeps (p := fun _ _ => True) (fun h _ one => keep h one) start (alongTrue s as) ok

/- A machine with a notebook beside it, for statements about what a run did before. -/
def recording (step : σ → α → Option σ) (note : σ → α → τ → τ) (s : σ × τ) (a : α) : Option (σ × τ) :=
  (step s.1 a).map (fun t => (t,note s.1 a s.2))

variable {note : σ → α → τ → τ}

theorem recordingStep {s t : σ × τ} {a} (ok : recording step note s a = some t) :
    step s.1 a = some t.1 ∧ t.2 = note s.1 a s.2 := by
  obtain ⟨u,one,rfl⟩ := Option.map_eq_some_iff.mp ok
  exact ⟨one,rfl⟩

theorem runRecording {s : σ × τ} {as t} (ok : run step s.1 as = some t) :
    ∃ h, run (recording step note) s as = some (t,h) := by
  induction as generalizing s with
  | nil =>
    cases Option.some.inj ok
    exact ⟨s.2,rfl⟩
  | cons a rest ih =>
    obtain ⟨u,one,more⟩ := runCons.mp ok
    obtain ⟨h,later⟩ := ih (s := (u,note s.1 a s.2)) more
    exact ⟨h,runCons.mpr ⟨_,by simp only [recording,one,Option.map_some],later⟩⟩

theorem alongRecording {s : σ × τ} {as} :
    Along (recording step note) (fun s a => p s.1 a) s as ↔ Along step p s.1 as := by
  induction as generalizing s with
  | nil => exact Iff.rfl
  | cons a rest ih =>
    cases one : step s.1 a with
    | none => simp only [Along,recording,one,Option.map_none]
    | some t => simp only [Along,recording,one,Option.map_some,ih]

theorem runErases {other : τ → α → Option τ} {keep : α → Bool} {rel : σ → τ → Prop}
    (kept : ∀ {s s' a t}, rel s s' → p s a → step s a = some t → keep a = true →
      ∃ t', other s' a = some t' ∧ rel t t')
    (unseen : ∀ {s s' a t}, rel s s' → p s a → step s a = some t → keep a = false → rel t s')
    {s s' t as} (start : rel s s') (along : Along step p s as) (ok : run step s as = some t) :
    ∃ t', run other s' (as.filter keep) = some t' ∧ rel t t' := by
  induction as generalizing s s' with
  | nil => cases Option.some.inj ok; exact ⟨s',rfl,start⟩
  | cons a rest ih =>
    obtain ⟨u,one,more⟩ := runCons.mp ok
    obtain ⟨here,later⟩ := (alongCons one).mp along
    cases hk : keep a with
    | true =>
      obtain ⟨u',one',next⟩ := kept start here one hk
      obtain ⟨t',more',done⟩ := ih next later more
      refine ⟨t',?_,done⟩
      rw [List.filter_cons_of_pos hk]
      exact runCons.mpr ⟨u',one',more'⟩
    | false =>
      obtain ⟨t',more',done⟩ := ih (unseen start here one hk) later more
      exact ⟨t',by rwa [List.filter_cons_of_neg (by simp [hk])],done⟩

theorem concatFrom {l : List α} {a b : α} {i : Nat} (found : (l ++ [a])[i]? = some b) :
    l[i]? = some b ∨ i = l.length ∧ b = a := by
  rw [List.getElem?_append] at found
  split at found
  · exact .inl found
  · rename_i past
    obtain ⟨last,-⟩ := List.getElem?_eq_some_iff.mp found
    rw [List.length_singleton] at last
    exact .inr ⟨by omega,List.mem_singleton.mp (List.mem_of_getElem? found)⟩

theorem concatStays {l : List α} {a b : α} {i : Nat} (found : l[i]? = some b) : (l ++ [a])[i]? = some b :=
  (List.getElem?_append_left (List.getElem?_eq_some_iff.mp found).1).trans found

theorem setFound {l : List α} {a b : α} {i j : Nat} (found : (l.set i a)[j]? = some b) :
    j = i ∧ b = a ∨ j ≠ i ∧ l[j]? = some b := by
  by_cases same : j = i
  · subst same
    have short : j < l.length := by
      have := (List.getElem?_eq_some_iff.mp found).1
      rwa [List.length_set] at this
    rw [List.getElem?_set_self short] at found
    exact .inl ⟨rfl,(Option.some.inj found).symm⟩
  · exact .inr ⟨same,(List.getElem?_set_ne (Ne.symm same)).symm.trans found⟩

theorem setStays {l : List α} {a b : α} {i j : Nat} (found : l[j]? = some b) :
    j = i ∧ (l.set i a)[j]? = some a ∨ j ≠ i ∧ (l.set i a)[j]? = some b := by
  by_cases same : j = i
  · subst same
    exact .inl ⟨rfl,List.getElem?_set_self (List.getElem?_eq_some_iff.mp found).1⟩
  · exact .inr ⟨same,(List.getElem?_set_ne (Ne.symm same)).trans found⟩

theorem countMoved {q : α → Bool} {l : List α} {i : Nat} {x y : α} (found : l[i]? = some y) :
    (l.set i x).countP q + (q y).toNat = l.countP q + (q x).toNat := by
  induction l generalizing i with
  | nil => simp at found
  | cons z rest ih =>
    cases i with
    | zero =>
      cases Option.some.inj found
      simp only [List.set_cons_zero,List.countP_cons]
      cases q x <;> cases q y <;> simp
    | succ i =>
      have later := ih (i := i) (by simpa using found)
      simp only [List.set_cons_succ,List.countP_cons]
      omega

/- What becomes of a request to another machine. ok: done and answered. lost: done, and
the caller sees an error. failed: not done, and the caller sees an error. -/
inductive Reply where | ok | lost | failed
  deriving DecidableEq, Repr

def Reply.ran : Reply → Bool
  | .failed => false
  | _ => true

end DevkitCommon.Machine
