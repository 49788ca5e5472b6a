import DevkitCommon.Lib.Machine
import Mathlib.Algebra.GroupWithZero.Nat
import Mathlib.Data.List.Dedup
import Mathlib.Data.List.Perm.Subperm
import Mathlib.Data.String.Basic

/-! What sampling left out: the drop hooks, the timer and its flush, the flushes of Sync and
stop. A flush swaps the counts out under the lock and writes its reports without it. -/
namespace DevkitCommon.Zlog.Drops
open Machine

structure DropKey where
  level : Int
  msg : String
  deriving DecidableEq, Repr

structure Report where
  level : Int
  droppedMsg : String
  dropped : Nat
  deriving DecidableEq, Repr

def maxDropKeys : Nat := 64
def warnLevel : Int := 1

/- zapcore.LogDropped is the first bit of a decision. -/
def logDropped (dec : UInt32) : Bool := dec &&& 1 != 0

/- A timer that has been armed: set until its time comes, then fired, its flush still to run. -/
inductive Timer where | set | fired
  deriving DecidableEq, Repr

structure Flush where
  since : List DropKey
  reports : List Report

/- fired counts the timers that have fired and whose flush has not begun; flights are the
reports that the flushes still have to write. No step reads drops, since and flushes: every
drop so far, those since the last flush, and the flushes so far. -/
structure State where
  pending : List (DropKey × Nat)
  other : Nat
  timer : Option Timer
  fired : Nat
  flights : List (List Report)
  reports : List Report
  drops : List DropKey
  since : List DropKey
  flushes : List Flush

def State.init : State := ⟨[],0,none,0,[],[],[],[],[]⟩

def keysOf (pending : List (DropKey × Nat)) : List DropKey := pending.map Prod.fst

def countOf (pending : List (DropKey × Nat)) (k : DropKey) : Nat := (pending.lookup k).getD 0

def incr (k : DropKey) : List (DropKey × Nat) → List (DropKey × Nat)
  | [] => [(k,1)]
  | e::rest => if e.1 = k then (e.1,e.2 + 1)::rest else e::incr k rest

def before (pending : List (DropKey × Nat)) (i j : DropKey) : Bool :=
  if countOf pending i ≠ countOf pending j then decide (countOf pending j < countOf pending i) else decide (i.msg < j.msg)

def sorted (pending : List (DropKey × Nat)) (keys : List DropKey) : Prop :=
  keys.Pairwise (fun i j => before pending j i = false)

instance (pending : List (DropKey × Nat)) (keys : List DropKey) : Decidable (sorted pending keys) :=
  inferInstanceAs (Decidable (keys.Pairwise _))

def reportsOf (pending : List (DropKey × Nat)) (other : Nat) (keys : List DropKey) : List Report :=
  keys.map (fun k => ⟨k.level,k.msg,countOf pending k⟩) ++
    if 0 < other then [⟨warnLevel,"(other messages)",other⟩] else []

/- flush is one of Sync or stop, expired that of a timer that has fired; keys is the order
of its reports, which the sort leaves open where count and message are the same. -/
inductive Action where
  | hook (k : DropKey) (dec : UInt32)
  | fire
  | flush (keys : List DropKey)
  | expired (keys : List DropKey)
  | write (i : Nat)
  deriving DecidableEq, Repr

def State.flush (s : State) (keys : List DropKey) : Option State :=
  if keys.Perm (keysOf s.pending) ∧ sorted s.pending keys then
    let reports := reportsOf s.pending s.other keys
    some {s with
      pending := []
      other := 0
      timer := none
      flights := s.flights ++ [reports]
      since := []
      flushes := s.flushes ++ [⟨s.since,reports⟩]}
  else none

def step (s : State) : Action → Option State
  | .hook k dec =>
    if logDropped dec then
      let s := {s with timer := s.timer.or (some .set),drops := s.drops ++ [k],since := s.since ++ [k]}
      if k ∈ keysOf s.pending ∨ s.pending.length < maxDropKeys then some {s with pending := incr k s.pending}
      else some {s with other := s.other + 1}
    else some s
  | .fire => match s.timer with
    | some .set => some {s with timer := some .fired,fired := s.fired + 1}
    | _ => none
  | .flush keys => s.flush keys
  | .expired keys => if 0 < s.fired then {s with fired := s.fired - 1}.flush keys else none
  | .write i => match s.flights[i]? with
    | some (report::rest) => some {s with flights := s.flights.set i rest,reports := s.reports ++ [report]}
    | _ => none

section Counts
variable {k m : DropKey} {pending : List (DropKey × Nat)}

theorem incrKeys : keysOf (incr k pending) = if k ∈ keysOf pending then keysOf pending else keysOf pending ++ [k] := by
  induction pending with
  | nil => rfl
  | cons e rest ih =>
    rw [incr]
    by_cases same : e.1 = k
    · have here : k ∈ keysOf (e::rest) := same ▸ List.mem_cons_self
      rw [if_pos same,if_pos here]
      rfl
    · have there : k ∈ keysOf (e::rest) ↔ k ∈ keysOf rest := by
        rw [keysOf,List.map_cons,List.mem_cons]
        exact or_iff_right (fun equal => same equal.symm)
      rw [if_neg same,if_congr there rfl rfl,keysOf,List.map_cons,← keysOf,ih]
      split <;> rfl

theorem countOfCons {e : DropKey × Nat} : countOf (e::pending) m = if m = e.1 then e.2 else countOf pending m := by
  rw [countOf,List.lookup_cons]
  by_cases same : m = e.1
  · rw [if_pos same,beq_iff_eq.mpr same]
    rfl
  · rw [if_neg same,beq_eq_false_iff_ne.mpr same]
    rfl

theorem incrCount : countOf (incr k pending) m = if m = k then countOf pending m + 1 else countOf pending m := by
  induction pending with
  | nil =>
    rw [incr,countOfCons]
    split <;> rfl
  | cons e rest ih =>
    rw [incr]
    by_cases same : e.1 = k
    · subst same
      rw [if_pos rfl,countOfCons,countOfCons]
      split <;> rfl
    · rw [if_neg same,countOfCons,countOfCons,ih]
      by_cases here : m = e.1
      · rw [if_pos here,if_pos here,if_neg (here ▸ same)]
      · rw [if_neg here,if_neg here]

theorem incrSum : ((incr k pending).map Prod.snd).sum = (pending.map Prod.snd).sum + 1 := by
  induction pending with
  | nil => rfl
  | cons e rest ih =>
    rw [incr]
    split
    · simp only [List.map_cons,List.sum_cons]
      omega
    · simp only [List.map_cons,List.sum_cons,ih]
      omega

theorem countAbsent (absent : k ∉ keysOf pending) : countOf pending k = 0 := by
  induction pending with
  | nil => rfl
  | cons e rest ih =>
    rw [keysOf,List.map_cons,List.mem_cons,not_or] at absent
    rw [countOfCons,if_neg absent.1]
    exact ih absent.2

theorem countsSum (once : (keysOf pending).Nodup) :
    ((keysOf pending).map (countOf pending)).sum = (pending.map Prod.snd).sum := by
  have each : ∀ e ∈ pending, countOf pending e.1 = e.2 := by
    induction pending with
    | nil => exact fun e mem => by cases mem
    | cons d rest ih =>
      obtain ⟨absent,once⟩ := List.nodup_cons.mp once
      intro e mem
      rw [countOfCons]
      obtain rfl | later := List.mem_cons.mp mem
      · exact if_pos rfl
      · have other : e.1 ≠ d.1 := fun same => absent (List.mem_map.mpr ⟨e,later,same⟩)
        rw [if_neg other]
        exact ih once e later
  rw [keysOf,List.map_map]
  exact congrArg List.sum (List.map_congr_left each)

theorem reportsSum {other : Nat} {keys : List DropKey} (once : (keysOf pending).Nodup)
    (order : keys.Perm (keysOf pending)) :
    ((reportsOf pending other keys).map Report.dropped).sum = (pending.map Prod.snd).sum + other := by
  have counts : (keys.map (countOf pending)).sum = (pending.map Prod.snd).sum :=
    (order.map _).sum_nat.trans (countsSum once)
  rw [reportsOf,List.map_append,List.sum_append,List.map_map]
  refine congrArg₂ (· + ·) counts ?_
  split
  · rfl
  · rename_i none
    simp only [List.map_nil,List.sum_nil]
    omega

end Counts
section Claim

def State.held (s : State) : Nat := (s.pending.map Prod.snd).sum + s.other

def total (reports : List Report) : Nat := (reports.map Report.dropped).sum

def State.moving (s : State) : Nat := total s.flights.flatten

def Exact (f : Flush) : Prop := f.reports.Perm (f.since.dedup.map (fun k => ⟨k.level,k.msg,f.since.count k⟩))

structure Accounted (s : State) : Prop where
  conserved : total s.reports + s.moving + s.held = s.drops.length
  flushed : s.drops = s.flushes.flatMap Flush.since ++ s.since
  written : (s.reports ++ s.flights.flatten).Perm (s.flushes.flatMap Flush.reports)
  right : ∀ f ∈ s.flushes, f.since.dedup.length ≤ 64 → Exact f
  armed : 0 < s.held → s.timer = some .set ∨ s.timer = some .fired ∧ 0 < s.fired

structure Window (pending : List (DropKey × Nat)) (other : Nat) (since : List DropKey) : Prop where
  once : (keysOf pending).Nodup
  bound : pending.length ≤ 64
  heard : ∀ k ∈ keysOf pending, k ∈ since
  known : ∀ k ∈ keysOf pending, countOf pending k = since.count k
  beyond : ∀ k ∈ since, k ∉ keysOf pending → 0 < other
  full : 0 < other → pending.length = 64 ∧ ∃ k ∈ since, k ∉ keysOf pending
  sum : (pending.map Prod.snd).sum + other = since.length

structure Sound (s : State) : Prop where
  window : Window s.pending s.other s.since
  drops : s.drops = s.flushes.flatMap Flush.since ++ s.since
  written : (s.reports ++ s.flights.flatten).Perm (s.flushes.flatMap Flush.reports)
  balanced : ∀ f ∈ s.flushes, total f.reports = f.since.length
  right : ∀ f ∈ s.flushes, f.since.dedup.length ≤ 64 → Exact f
  armed : 0 < s.held → s.timer ≠ none
  fires : s.timer = some .fired → 0 < s.fired

section Windows
variable {k m : DropKey} {pending : List (DropKey × Nat)} {other : Nat} {since : List DropKey}

theorem countConcat : (since ++ [k]).count m = if m = k then since.count m + 1 else since.count m := by
  rw [List.count_append,List.count_singleton]
  by_cases same : m = k
  · rw [if_pos same,same,beq_self_eq_true,if_pos rfl]
  · rw [if_neg same,beq_eq_false_iff_ne.mpr (Ne.symm same)]
    rfl

theorem memConcat {α : Type} {l : List α} {a b : α} : b ∈ l ++ [a] ↔ b ∈ l ∨ b = a := by
  rw [List.mem_append,List.mem_singleton]

theorem windowCounts (window : Window pending other since) (room : k ∈ keysOf pending ∨ pending.length < 64) :
    Window (incr k pending) other (since ++ [k]) := by
  have length : (keysOf (incr k pending)).length = (incr k pending).length := List.length_map _
  have before' : (keysOf pending).length = pending.length := List.length_map _
  have unheard : k ∉ keysOf pending → since.count k = 0 := by
    intro absent
    refine List.count_eq_zero.mpr fun mem => ?_
    have full := window.full (window.beyond k mem absent)
    have short := room.resolve_left absent
    omega
  refine ⟨?_,?_,?_,?_,?_,?_,?_⟩
  · rw [incrKeys]
    split
    · exact window.once
    · rename_i absent
      exact List.nodup_append.mpr ⟨window.once,List.nodup_singleton k,
        fun a mem b last same => absent (List.mem_singleton.mp last ▸ same ▸ mem)⟩
  · rw [← length,incrKeys]
    split
    · exact before' ▸ window.bound
    · rename_i absent
      have short := room.resolve_left absent
      rw [List.length_append,before',List.length_singleton]
      omega
  · intro a mem
    rw [incrKeys] at mem
    rw [memConcat]
    split at mem
    · exact .inl (window.heard a mem)
    · exact (memConcat.mp mem).imp_left (window.heard a)
  · intro a mem
    rw [incrCount,countConcat]
    by_cases same : a = k
    · rw [if_pos same,if_pos same,same]
      by_cases here : k ∈ keysOf pending
      · rw [window.known k here]
      · rw [countAbsent here,unheard here]
    · rw [if_neg same,if_neg same]
      refine window.known a ?_
      rw [incrKeys] at mem
      split at mem
      · exact mem
      · exact (memConcat.mp mem).resolve_right same
  · intro a mem absent
    have gone : a ∉ keysOf pending ∧ a ≠ k := by
      rw [incrKeys] at absent
      split at absent
      · rename_i here
        exact ⟨absent,fun same => absent (same ▸ here)⟩
      · exact ⟨fun here => absent (memConcat.mpr (.inl here)),fun same => absent (memConcat.mpr (.inr same))⟩
    exact window.beyond a ((memConcat.mp mem).resolve_right gone.2) gone.1
  · intro positive
    obtain ⟨full,a,mem,absent⟩ := window.full positive
    have here : k ∈ keysOf pending := room.resolve_right (by omega)
    refine ⟨?_,a,memConcat.mpr (.inl mem),?_⟩
    · rw [← length,incrKeys,if_pos here,before',full]
    · rw [incrKeys,if_pos here]
      exact absent
  · rw [incrSum,List.length_append,List.length_singleton]
    have sum := window.sum
    omega

theorem windowSpills (window : Window pending other since) (absent : k ∉ keysOf pending) (full : 64 ≤ pending.length) :
    Window pending (other + 1) (since ++ [k]) where
  once := window.once
  bound := window.bound
  heard := fun a mem => memConcat.mpr (.inl (window.heard a mem))
  known := by
    intro a mem
    have other : a ≠ k := by
      rintro rfl
      exact absent mem
    rw [countConcat,if_neg other]
    exact window.known a mem
  beyond := fun _ _ _ => Nat.succ_pos other
  full := by
    intro _
    have bound := window.bound
    exact ⟨by omega,k,memConcat.mpr (.inr rfl),absent⟩
  sum := by
    rw [List.length_append,List.length_singleton]
    have sum := window.sum
    omega

theorem windowEmpty : Window [] 0 [] where
  once := List.nodup_nil
  bound := Nat.zero_le _
  heard := fun k mem => by cases mem
  known := fun k mem => by cases mem
  beyond := fun k mem => by cases mem
  full := fun positive => absurd positive (Nat.lt_irrefl 0)
  sum := rfl

theorem windowExact (window : Window pending other since) {keys : List DropKey} (order : keys.Perm (keysOf pending))
    (few : since.dedup.length ≤ 64) : Exact ⟨since,reportsOf pending other keys⟩ := by
  have inside : keysOf pending ⊆ since.dedup := fun k mem => List.mem_dedup.mpr (window.heard k mem)
  have none : other = 0 := by
    refine Nat.eq_zero_of_not_pos fun positive => ?_
    obtain ⟨full,k,mem,absent⟩ := window.full positive
    have more : (k::keysOf pending).Nodup := List.nodup_cons.mpr ⟨absent,window.once⟩
    have sub : k::keysOf pending ⊆ since.dedup := List.cons_subset.mpr ⟨List.mem_dedup.mpr mem,inside⟩
    have least := (List.subperm_of_subset more sub).length_le
    rw [List.length_cons,keysOf,List.length_map] at least
    omega
  have all : (keysOf pending).Perm since.dedup := by
    refine (List.perm_ext_iff_of_nodup window.once (List.nodup_dedup since)).mpr fun k => ⟨fun mem => inside mem,?_⟩
    intro mem
    refine Classical.byContradiction fun absent => ?_
    have positive := window.beyond k (List.mem_dedup.mp mem) absent
    omega
  rw [Exact,reportsOf,if_neg (by omega),List.append_nil]
  have counts : keys.map (fun k => (⟨k.level,k.msg,countOf pending k⟩ : Report)) =
      keys.map (fun k => ⟨k.level,k.msg,since.count k⟩) := by
    refine List.map_congr_left fun k mem => ?_
    rw [window.known k (order.mem_iff.mp mem)]
  rw [counts]
  exact (order.trans all).map _

end Windows
theorem flattenSet {α : Type} {ls : List (List α)} {i : Nat} {a : α} {rest : List α} (found : ls[i]? = some (a::rest)) :
    ls.flatten.Perm (a::(ls.set i rest).flatten) := by
  induction ls generalizing i with
  | nil => cases found
  | cons l ls ih =>
    cases i with
    | zero =>
      cases Option.some.inj found
      exact List.Perm.refl _
    | succ i =>
      rw [List.flatten_cons,List.set_cons_succ,List.flatten_cons]
      exact ((ih found).append_left l).trans List.perm_middle

section Orders
variable (pending : List (DropKey × Nat))

theorem notBefore (i j : DropKey) : before pending j i = false ↔
    countOf pending j < countOf pending i ∨ countOf pending j = countOf pending i ∧ ¬ j.msg < i.msg := by
  unfold before
  split
  · rename_i apart
    rw [decide_eq_false_iff_not]
    omega
  · rename_i same
    rw [decide_eq_false_iff_not]
    have equal := not_not.mp same
    constructor
    · exact fun late => .inr ⟨equal,late⟩
    · rintro (less | ⟨-,late⟩)
      · omega
      · exact late

theorem sortedOrder : ∃ keys, keys.Perm (keysOf pending) ∧ sorted pending keys := by
  let le := fun i j => !before pending j i
  have leIff (i j : DropKey) : le i j = true ↔ before pending j i = false := Bool.not_eq_true' _ ▸ Iff.rfl
  refine ⟨(keysOf pending).mergeSort le,List.mergeSort_perm _ _,?_⟩
  have trans : ∀ i j k, le i j = true → le j k = true → le i k = true := by
    intro i j k first second
    rw [leIff,notBefore] at first second ⊢
    obtain less | ⟨equal,late⟩ := first
    · exact .inl (by omega)
    · obtain less | ⟨again,later⟩ := second
      · exact .inl (by omega)
      · exact .inr ⟨by omega,not_lt.mpr ((not_lt.mp late).trans (not_lt.mp later))⟩
  have total : ∀ i j, (le i j || le j i) = true := by
    intro i j
    rw [Bool.or_eq_true,leIff,leIff,notBefore,notBefore]
    obtain less | same | more := lt_trichotomy (countOf pending i) (countOf pending j)
    · exact .inr (.inl less)
    · obtain late | late := le_total i.msg j.msg
      · exact .inl (.inr ⟨same.symm,not_lt.mpr late⟩)
      · exact .inr (.inr ⟨same,not_lt.mpr late⟩)
    · exact .inl (.inl more)
  exact (List.pairwise_mergeSort trans total _).imp fun {i j} least => (leIff i j).mp least

theorem flushEnabled (s : State) : ∃ keys t, s.flush keys = some t := by
  obtain ⟨keys,order,worst⟩ := sortedOrder s.pending
  exact ⟨keys,_,if_pos ⟨order,worst⟩⟩

end Orders
section Runs
variable {s t : State} {a : Action} {keys : List DropKey}

theorem initSound : Sound State.init where
  window := windowEmpty
  drops := rfl
  written := List.Perm.refl _
  balanced := fun f mem => by cases mem
  right := fun f mem => by cases mem
  armed := fun positive => absurd positive (Nat.lt_irrefl 0)
  fires := fun same => by cases same

theorem flushSound (inv : Sound s) (fired : Nat) (ok : {s with fired := fired}.flush keys = some t) : Sound t := by
  unfold State.flush at ok
  split at ok <;> try contradiction
  rename_i checked
  cases Option.some.inj ok
  refine ⟨windowEmpty,?_,?_,?_,?_,fun positive => absurd positive (Nat.lt_irrefl 0),fun same => by cases same⟩
  · simp only [List.flatMap_append,List.flatMap_singleton,List.append_nil]
    exact inv.drops
  · simp only [List.flatMap_append,List.flatMap_singleton,List.flatten_append,List.flatten_singleton,← List.append_assoc]
    exact inv.written.append_right _
  · intro f mem
    obtain old | rfl := memConcat.mp mem
    · exact inv.balanced f old
    · exact (reportsSum inv.window.once checked.1).trans inv.window.sum
  · intro f mem
    obtain old | rfl := memConcat.mp mem
    · exact inv.right f old
    · exact windowExact inv.window checked.1

theorem hookSound {k : DropKey} (inv : Sound s) : Sound
    {s with
      timer := s.timer.or (some .set)
      drops := s.drops ++ [k]
      since := s.since ++ [k]
      pending := if k ∈ keysOf s.pending ∨ s.pending.length < maxDropKeys then incr k s.pending else s.pending
      other := if k ∈ keysOf s.pending ∨ s.pending.length < maxDropKeys then s.other else s.other + 1} where
  window := by
    split
    · rename_i room
      exact windowCounts inv.window room
    · rename_i room
      obtain ⟨absent,full⟩ := not_or.mp room
      exact windowSpills inv.window absent (Nat.not_lt.mp full)
  drops := by
    rw [inv.drops,List.append_assoc]
  written := inv.written
  balanced := inv.balanced
  right := inv.right
  armed := by
    intro _
    cases s.timer with
    | none => exact fun same => by cases same
    | some timer => exact fun same => by cases same
  fires := by
    intro fired
    refine inv.fires ?_
    cases armed : s.timer with
    | none => rw [armed] at fired; cases fired
    | some timer => rw [armed] at fired; exact fired

theorem writeSound {i : Nat} {report : Report} {rest : List Report} (inv : Sound s)
    (found : s.flights[i]? = some (report::rest)) :
    Sound {s with flights := s.flights.set i rest,reports := s.reports ++ [report]} where
  window := inv.window
  drops := inv.drops
  written := by
    refine List.Perm.trans ?_ inv.written
    rw [List.append_assoc]
    exact (flattenSet found).symm.append_left _
  balanced := inv.balanced
  right := inv.right
  armed := inv.armed
  fires := inv.fires

theorem stepSound (inv : Sound s) (ok : step s a = some t) : Sound t := by
  cases a with
  | hook k dec =>
    rw [step] at ok
    split at ok
    · have next := hookSound (k := k) inv
      simp only at ok
      split at ok
      · rename_i room
        cases Option.some.inj ok
        rwa [if_pos room,if_pos room] at next
      · rename_i room
        cases Option.some.inj ok
        rwa [if_neg room,if_neg room] at next
    · cases Option.some.inj ok
      exact inv
  | fire =>
    rw [step] at ok
    split at ok <;> try contradiction
    cases Option.some.inj ok
    exact {inv with armed := fun _ same => (by cases same),fires := fun _ => Nat.succ_pos s.fired}
  | flush keys => exact flushSound inv s.fired ok
  | expired keys =>
    rw [step] at ok
    split at ok <;> try contradiction
    exact flushSound inv (s.fired - 1) ok
  | write i =>
    rw [step] at ok
    split at ok <;> try contradiction
    rename_i report rest found
    cases Option.some.inj ok
    exact writeSound inv found

theorem soundReachable (inv : Reachable step State.init s) : Sound s := reachableKeeps stepSound initSound inv

theorem flushesBalanced {fs : List Flush} (balanced : ∀ f ∈ fs, total f.reports = f.since.length) :
    total (fs.flatMap Flush.reports) = (fs.flatMap Flush.since).length := by
  induction fs with
  | nil => rfl
  | cons f fs ih =>
    have rest := ih (fun g mem => balanced g (List.mem_cons_of_mem _ mem))
    have one := balanced f List.mem_cons_self
    simp only [total] at rest one ⊢
    rw [List.flatMap_cons,List.flatMap_cons,List.map_append,List.sum_append,List.length_append,rest,one]

theorem dropsAccounted (as : List Action) (s : State) (ok : run step State.init as = some s) : Accounted s := by
  have inv := soundReachable ⟨as,ok⟩
  refine ⟨?_,inv.drops,inv.written,inv.right,?_⟩
  · have written := (inv.written.map Report.dropped).sum_nat
    have balanced := flushesBalanced inv.balanced
    have sum := inv.window.sum
    rw [List.map_append,List.sum_append] at written
    rw [inv.drops,List.length_append,State.moving,State.held]
    simp only [total] at balanced ⊢
    omega
  · intro positive
    cases timer : s.timer with
    | none => exact absurd timer (inv.armed positive)
    | some armed =>
      cases armed with
      | set => exact .inl rfl
      | fired => exact .inr ⟨rfl,inv.fires timer⟩

end Runs

def flooded : List Action :=
  [.hook ⟨2,"redis down"⟩ 1,.hook ⟨2,"redis down"⟩ 1,.hook ⟨1,"slow"⟩ 3,.hook ⟨1,"slow"⟩ 2,.fire,
    .flush [⟨2,"redis down"⟩,⟨1,"slow"⟩],.hook ⟨1,"slow"⟩ 1,.write 0,.expired [⟨1,"slow"⟩],.write 1,.write 0]

theorem floodedAccounted : ∃ s, run step State.init flooded = some s ∧
    s.reports = [⟨2,"redis down",2⟩,⟨1,"slow",1⟩,⟨1,"slow",1⟩] ∧ Accounted s := by
  have facts : (run step State.init flooded).map State.reports =
      some [⟨2,"redis down",2⟩,⟨1,"slow",1⟩,⟨1,"slow",1⟩] := by decide
  obtain ⟨s,ok,reports⟩ := Option.map_eq_some_iff.mp facts
  exact ⟨s,ok,reports,dropsAccounted flooded s ok⟩

end Claim
end DevkitCommon.Zlog.Drops
