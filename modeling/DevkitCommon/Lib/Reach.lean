import Mathlib.Data.List.Basic

/-! What can be reached in a graph given as a table of each point's links, by a list of
points still to be looked at. -/
namespace DevkitCommon.Reach
variable {α : Type} [DecidableEq α]

inductive Reached (graph : List (α × List α)) (roots : List α) : α → Prop where
  | root {n more} (mem : n ∈ roots) (found : graph.lookup n = some more) : Reached graph roots n
  | next {n more m more'} (before : Reached graph roots n) (found : graph.lookup n = some more) (mem : m ∈ more)
      (there : graph.lookup m = some more') : Reached graph roots m

theorem unseenLess {graph : List (α × List α)} {n : α} {more : List α} {seen : List α} (fresh : n ∉ seen)
    (found : graph.lookup n = some more) :
    (graph.filter (fun e => decide (e.1 ∉ n::seen))).length < (graph.filter (fun e => decide (e.1 ∉ seen))).length := by
  induction graph with
  | nil => exact absurd found (Option.some_ne_none _).symm
  | cons e graph ih =>
    have tail : (graph.filter (fun e => decide (e.1 ∉ n::seen))).length ≤
        (graph.filter (fun e => decide (e.1 ∉ seen))).length := by
      rw [← List.countP_eq_length_filter,← List.countP_eq_length_filter]
      refine List.countP_mono_left (fun x _ out => ?_)
      have out := of_decide_eq_true out
      exact decide_eq_true (fun mem => out (List.mem_cons_of_mem _ mem))
    obtain ⟨k,links⟩ := e
    rw [List.lookup_cons] at found
    by_cases same : n = k
    · subst same
      have gone : decide (n ∉ n::seen) = false := decide_eq_false (fun out => out List.mem_cons_self)
      have kept : decide (n ∉ seen) = true := decide_eq_true fresh
      rw [List.filter_cons,List.filter_cons]
      simp only [gone,kept,if_true,Bool.false_eq_true,if_false,List.length_cons]
      omega
    · have later : graph.lookup n = some more := by
        have other : (n == k) = false := beq_eq_false_iff_ne.mpr same
        simpa only [other] using found
      have less := ih later
      rw [List.filter_cons,List.filter_cons]
      by_cases out : k ∈ seen
      · have gone : decide (k ∉ n::seen) = false := decide_eq_false (fun no => no (List.mem_cons_of_mem _ out))
        have gone' : decide (k ∉ seen) = false := decide_eq_false (fun no => no out)
        simp only [gone,gone',Bool.false_eq_true,if_false]
        exact less
      · have kept : decide (k ∉ n::seen) = true :=
          decide_eq_true (fun mem => (List.mem_cons.mp mem).elim (fun e => same e.symm) out)
        have kept' : decide (k ∉ seen) = true := decide_eq_true out
        simp only [kept,kept',if_true,List.length_cons]
        omega

def reach (graph : List (α × List α)) (seen stack : List α) : List α :=
  match stack with
  | [] => seen
  | n::rest =>
    if _known : n ∈ seen then reach graph seen rest
    else match _found : graph.lookup n with
      | none => reach graph seen rest
      | some more => reach graph (n::seen) (more.reverse ++ rest)
termination_by ((graph.filter (fun e => decide (e.1 ∉ seen))).length,stack.length)
decreasing_by
  · exact Prod.Lex.right _ (Nat.lt_succ_self _)
  · exact Prod.Lex.right _ (Nat.lt_succ_self _)
  · exact Prod.Lex.left _ _ (unseenLess _known _found)

section Sound
variable {graph : List (α × List α)} {roots : List α}

theorem reachSound {seen stack : List α} (inside : ∀ n ∈ seen, Reached graph roots n)
    (next : ∀ n ∈ stack, ∀ more, graph.lookup n = some more → Reached graph roots n) :
    ∀ n ∈ reach graph seen stack, Reached graph roots n := by
  fun_induction reach graph seen stack with
  | case1 seen => exact inside
  | case2 seen n rest known ih => exact ih inside (fun m mem => next m (List.mem_cons_of_mem _ mem))
  | case3 seen n rest known found ih => exact ih inside (fun m mem => next m (List.mem_cons_of_mem _ mem))
  | case4 seen n rest known more found ih =>
    have here := next n List.mem_cons_self more found
    refine ih (fun m mem => ?_) (fun m mem links there => ?_)
    · rcases List.mem_cons.mp mem with rfl | mem
      · exact here
      · exact inside m mem
    · rcases List.mem_append.mp mem with mem | mem
      · exact .next here found (List.mem_reverse.mp mem) there
      · exact next m (List.mem_cons_of_mem _ mem) links there

theorem reachKeeps {seen stack : List α} : ∀ n ∈ seen, n ∈ reach graph seen stack := by
  fun_induction reach graph seen stack with
  | case1 seen => exact fun _ mem => mem
  | case2 seen n rest known ih => exact ih
  | case3 seen n rest known found ih => exact ih
  | case4 seen n rest known more found ih => exact fun m mem => ih m (List.mem_cons_of_mem _ mem)

theorem reachCloses {seen stack : List α} (closed : ∀ n ∈ seen, ∀ more, graph.lookup n = some more →
      ∀ m ∈ more, ∀ links, graph.lookup m = some links → m ∈ seen ∨ m ∈ stack) :
    (∀ n ∈ stack, ∀ more, graph.lookup n = some more → n ∈ reach graph seen stack) ∧
      ∀ n ∈ reach graph seen stack, ∀ more, graph.lookup n = some more →
        ∀ m ∈ more, ∀ links, graph.lookup m = some links → m ∈ reach graph seen stack := by
  fun_induction reach graph seen stack with
  | case1 seen =>
    refine ⟨fun _ mem => absurd mem List.not_mem_nil,fun n mem more found m linked links there => ?_⟩
    exact (closed n mem more found m linked links there).resolve_right List.not_mem_nil
  | case2 seen n rest known ih =>
    have sub := ih (fun a mem more found m linked links there =>
      (closed a mem more found m linked links there).elim .inl
        (fun on => (List.mem_cons.mp on).elim (fun e => .inl (e ▸ known)) .inr))
    refine ⟨fun m mem more found => ?_,sub.2⟩
    rcases List.mem_cons.mp mem with rfl | mem
    · exact reachKeeps m known
    · exact sub.1 m mem more found
  | case3 seen n rest known gone ih =>
    have sub := ih (fun a mem more found m linked links there =>
      (closed a mem more found m linked links there).elim .inl
        (fun on => (List.mem_cons.mp on).elim
          (fun e => absurd ((e ▸ there).symm.trans gone) (Option.some_ne_none _)) .inr))
    refine ⟨fun m mem more found => ?_,sub.2⟩
    rcases List.mem_cons.mp mem with rfl | mem
    · exact absurd (found.symm.trans gone) (Option.some_ne_none _)
    · exact sub.1 m mem more found
  | case4 seen n rest known more found ih =>
    have sub := ih (fun a mem links' found' m linked links there => by
      rcases List.mem_cons.mp mem with rfl | mem
      · have same := Option.some.inj (found.symm.trans found')
        exact .inr (List.mem_append_left _ (List.mem_reverse.mpr (same ▸ linked)))
      · rcases closed a mem links' found' m linked links there with seen' | on
        · exact .inl (List.mem_cons_of_mem _ seen')
        · rcases List.mem_cons.mp on with rfl | on
          · exact .inl List.mem_cons_self
          · exact .inr (List.mem_append_right _ on))
    refine ⟨fun m mem links there => ?_,sub.2⟩
    rcases List.mem_cons.mp mem with rfl | mem
    · exact reachKeeps m List.mem_cons_self
    · exact sub.1 m (List.mem_append_right _ mem) links there

theorem reachIff (n : α) : n ∈ reach graph [] roots ↔ Reached graph roots n := by
  have closes := @reachCloses _ _ graph [] roots (fun _ mem => absurd mem List.not_mem_nil)
  constructor
  · exact reachSound (fun _ mem => absurd mem List.not_mem_nil) (fun m mem more found => .root mem found) n
  · intro reached
    induction reached with
    | root mem found => exact closes.1 _ mem _ found
    | next _ found mem there ih => exact closes.2 _ ih _ found _ mem _ there

end Sound
end DevkitCommon.Reach
