import Mathlib.Data.List.Basic

/-! The checks a deployment has to pass: each is tried again until it passes or its time for that is up, and the
verdict names the ones that never did. -/
namespace DevkitCommon.Verifyx

def second : Nat := 1000000000

inductive Outcome where
  | passed
  | failed (err : String)
  | panicked (value : String)
  deriving DecidableEq, Repr

def safely : Outcome → Option String
  | .passed => none
  | .failed err => some err
  | .panicked value => some ("panic: " ++ value)

/- run: an attempt starts at a time, with a context that ends at another: how long it takes, and what it ends in. -/
abbrev Fn := Nat → Nat → Nat × Outcome

structure Check where
  name : String
  description : String
  run : Option Fn

structure Options where
  timeout : Int
  retryFor : Int
  retryEvery : Int

def orElse (d : Int) (default : Nat) : Nat := if d ≤ 0 then default else d.toNat

def Options.perAttempt (o : Options) : Nat := orElse o.timeout (30*second)
def Options.every (o : Options) : Nat := orElse o.retryEvery (10*second)

structure Attempt where
  started : Nat
  ended : Nat
  err : Option String
  deriving DecidableEq, Repr

def expired (ctx : Option Nat) (t : Nat) : Bool := ctx.any (fun c => decide (c ≤ t))
def sooner (ctx : Option Nat) (t : Nat) : Nat := (ctx.map (fun c => min c t)).getD t

section Loop
variable (ctx : Option Nat) (o : Options) (fn : Fn) (start : Nat)

def tryOnce (now : Nat) : Attempt :=
  let (took,outcome) := fn now (sooner ctx (now+o.perAttempt))
  ⟨now,now+took,safely outcome⟩

def settled (a : Attempt) : Bool :=
  a.err.isNone || expired ctx a.ended || decide (o.retryFor < (a.ended : Int) - start + o.every)

def attempts : Nat → Nat → List Attempt
  | 0, _ => []
  | fuel+1, now =>
    let a := tryOnce ctx o fn now
    if settled ctx o start a then [a] else a::attempts fuel (sooner ctx (a.ended+o.every))

/- There are no more attempts than pauses fit, and one. -/
def Options.most : Nat := o.retryFor.toNat / o.every + 1

inductive Tries : Nat → List Attempt → Prop where
  | last (now : Nat) (left : settled ctx o start (tryOnce ctx o fn now) = true) : Tries now [tryOnce ctx o fn now]
  | again (now : Nat) (as : List Attempt) (stays : settled ctx o start (tryOnce ctx o fn now) = false)
      (rest : Tries (sooner ctx ((tryOnce ctx o fn now).ended+o.every)) as) : Tries now (tryOnce ctx o fn now::as)

end Loop

structure Result where
  name : String
  attempts : List Attempt
  deriving DecidableEq, Repr

def Result.err (r : Result) : Option String := r.attempts.getLast?.bind Attempt.err

def Check.fn (c : Check) : Option Fn := if c.name = "" then none else c.run

def walk (ctx : Option Nat) (o : Options) : List Check → Nat → Option (List Result)
  | [], _ => some []
  | c::rest, now => do
    let fn ← c.fn
    let as := attempts ctx o fn now o.most now
    let more ← walk ctx o rest ((as.getLast?.map Attempt.ended).getD now)
    some (⟨c.name,as⟩::more)

inductive Verdict where
  | invalid
  | failed (names : List String) (checks : Nat)
  | passed
  deriving DecidableEq, Repr

def Verdict.text : Verdict → Option String
  | .invalid => some "verifyx: a check needs a name and a function"
  | .failed names checks =>
    some ("verifyx: " ++ toString names.length ++ " of " ++ toString checks ++ " checks failed: " ++
      ", ".intercalate names)
  | .passed => none

def failing (rs : List Result) : List String := (rs.filter (fun r => r.err.isSome)).map Result.name

def run (ctx : Option Nat) (checks : List Check) (o : Options) (now : Nat) : Verdict := match walk ctx o checks now with
  | none => .invalid
  | some rs => if failing rs = [] then .passed else .failed (failing rs) checks.length

def jobOptions : Options := ⟨30*second,120*second,10*second⟩

def runVerify (checks : List Check) (now : Nat) : Nat := if run none checks jobOptions now = .passed then 0 else 1

section Tried
variable {ctx : Option Nat} {o : Options} {fn : Fn} {start now fuel t u : Nat} {as : List Attempt} {a : Attempt}

theorem everyPos : 0 < o.every := by
  unfold Options.every orElse
  split
  · decide
  · omega

theorem expiredLater (gone : expired ctx t = true) (later : t ≤ u) : expired ctx u = true := by
  cases ctx with
  | none => exact gone
  | some c => exact decide_eq_true (Nat.le_trans (of_decide_eq_true gone) later)

theorem soonerLe : sooner ctx t ≤ t := by
  cases ctx with
  | none => exact Nat.le_refl _
  | some c => exact Nat.min_le_right _ _

theorem soonerAfter (calm : expired ctx t = false) (later : t ≤ u) : t ≤ sooner ctx u := by
  cases ctx with
  | none => exact later
  | some c => exact Nat.le_min.mpr ⟨Nat.le_of_not_le (of_decide_eq_false calm),later⟩

theorem soonerCases : sooner ctx t = t ∨ expired ctx (sooner ctx t) = true := by
  cases ctx with
  | none => exact .inl rfl
  | some c =>
    by_cases first : c ≤ t
    · exact .inr (decide_eq_true (Nat.le_min.mpr ⟨Nat.le_refl _,first⟩))
    · exact .inl (Nat.min_eq_right (Nat.le_of_not_le first))

theorem tryEnded : now ≤ (tryOnce ctx o fn now).ended := Nat.le_add_right _ _

theorem settledFalse : settled ctx o start a = false ↔
    a.err ≠ none ∧ expired ctx a.ended = false ∧ (a.ended : Int) - start + o.every ≤ o.retryFor := by
  simp only [settled,Bool.or_eq_false_iff,decide_eq_false_iff_not,Int.not_lt,Option.isNone_eq_false_iff,
    Option.isSome_iff_ne_none,and_assoc]

theorem attemptsTries (late : start ≤ now) (some' : 0 < fuel)
    (enough : expired ctx now = true ∨ o.retryFor < (now : Int) - start + fuel*o.every) :
    Tries ctx o fn start now (attempts ctx o fn start fuel now) := by
  induction fuel generalizing now with
  | zero => exact absurd some' (Nat.lt_irrefl 0)
  | succ fuel ih =>
    have ended : now ≤ (tryOnce ctx o fn now).ended := tryEnded
    unfold attempts
    simp only
    cases left : settled ctx o start (tryOnce ctx o fn now) with
    | true =>
      rw [if_pos rfl]
      exact .last now left
    | false =>
      rw [if_neg Bool.false_ne_true]
      obtain ⟨_,calm,fits⟩ := settledFalse.mp left
      have next := Nat.le_trans ended (soonerAfter calm (Nat.le_add_right _ o.every))
      have room : o.retryFor < (now : Int) - start + (fuel*o.every+o.every) := by
        have before := enough.resolve_left (fun gone => absurd ((expiredLater gone ended).symm.trans calm) (by simp))
        rwa [Int.natCast_add,Int.natCast_one,Int.add_mul,Int.one_mul] at before
      refine .again now _ left (ih (Nat.le_trans late next) ?_ ?_)
      · refine Nat.pos_of_ne_zero (fun none' => ?_)
        rw [none',Int.natCast_zero,Int.zero_mul] at room
        omega
      · refine soonerCases.symm.imp_right (fun same => ?_)
        rw [same]
        push_cast
        omega

theorem attemptsFew : (attempts ctx o fn start fuel now).length ≤ fuel := by
  induction fuel generalizing now with
  | zero => exact Nat.le_refl _
  | succ fuel ih =>
    unfold attempts
    simp only
    split
    · exact Nat.succ_le_succ (Nat.zero_le _)
    · exact Nat.succ_le_succ ih

theorem checkTries : Tries ctx o fn start start (attempts ctx o fn start o.most start) := by
  refine attemptsTries (Nat.le_refl _) (Nat.succ_pos _) (.inr ?_)
  have fits : o.retryFor.toNat < o.most*o.every := by
    rw [Nat.mul_comm]
    exact Nat.lt_mul_div_succ _ everyPos
  have cast : ((o.most*o.every : Nat) : Int) = o.most*o.every := Int.natCast_mul _ _
  omega

structure Tried (ctx : Option Nat) (o : Options) (fn : Fn) (start now : Nat) (as : List Attempt) : Prop where
  some' : as ≠ []
  each : ∀ a ∈ as, a = tryOnce ctx o fn a.started
  later : ∀ a ∈ as, now ≤ a.started
  within : ∀ a ∈ as, a.started = now ∨ (a.started : Int) ≤ start + o.retryFor
  spaced : as.Pairwise (fun a b => a.ended + o.every ≤ b.started ∨ expired ctx b.started = true)
  before : ∀ a ∈ as.dropLast, a.err ≠ none

theorem triesTried (tries : Tries ctx o fn start now as) : Tried ctx o fn start now as := by
  induction tries with
  | last now left =>
    have only {a : Attempt} (mem : a ∈ [tryOnce ctx o fn now]) : a = tryOnce ctx o fn now := List.mem_singleton.mp mem
    refine ⟨List.cons_ne_nil _ _,fun a mem => ?_,fun a mem => ?_,fun a mem => ?_,List.pairwise_singleton _ _,?_⟩
    · cases only mem
      rfl
    · cases only mem
      exact Nat.le_refl _
    · cases only mem
      exact .inl rfl
    · exact fun a mem => absurd mem List.not_mem_nil
  | again now as stays rest ih =>
    obtain ⟨failed,calm,fits⟩ := settledFalse.mp stays
    have pause := soonerAfter calm (Nat.le_add_right (tryOnce ctx o fn now).ended o.every)
    have short : sooner ctx ((tryOnce ctx o fn now).ended+o.every) ≤ (tryOnce ctx o fn now).ended+o.every := soonerLe
    have next := Nat.le_trans tryEnded pause
    refine ⟨List.cons_ne_nil _ _,fun a mem => ?_,fun a mem => ?_,fun a mem => ?_,?_,?_⟩
    · obtain rfl | old := List.mem_cons.mp mem
      · rfl
      · exact ih.each a old
    · obtain rfl | old := List.mem_cons.mp mem
      · exact Nat.le_refl _
      · exact Nat.le_trans next (ih.later a old)
    · obtain rfl | old := List.mem_cons.mp mem
      · exact .inl rfl
      · refine .inr ((ih.within a old).elim (fun first => ?_) id)
        rw [first]
        omega
    · refine List.pairwise_cons.mpr ⟨fun b mem => ?_,ih.spaced⟩
      have begun := ih.later b mem
      refine soonerCases.imp (fun same => ?_) (fun gone => expiredLater gone begun)
      rwa [same] at begun
    · rw [List.dropLast_cons_of_ne_nil ih.some']
      intro a mem
      obtain rfl | old := List.mem_cons.mp mem
      · exact failed
      · exact ih.before a old

theorem triedEnded (tried : Tried ctx o fn start now as) (mem : a ∈ as) : now ≤ a.ended := by
  have ended : a.started ≤ (tryOnce ctx o fn a.started).ended := tryEnded
  rw [← tried.each a mem] at ended
  exact Nat.le_trans (tried.later a mem) ended

theorem triedErr (tried : Tried ctx o fn start now as) (name : String) :
    (Result.err ⟨name,as⟩).isSome = true ↔ ∀ a ∈ as, a.err ≠ none := by
  have split := List.dropLast_append_getLast tried.some'
  have err : Result.err ⟨name,as⟩ = (as.getLast tried.some').err := by
    unfold Result.err
    rw [List.getLast?_eq_some_getLast tried.some']
    rfl
  rw [err,Option.isSome_iff_ne_none]
  constructor
  · intro failed a mem
    rw [← split] at mem
    obtain old | last := List.mem_append.mp mem
    · exact tried.before a old
    · rw [List.mem_singleton.mp last]
      exact failed
  · exact fun all => all _ (List.getLast_mem tried.some')

structure Judges (ctx : Option Nat) (o : Options) (c : Check) (r : Result) : Prop where
  name : r.name = c.name
  tried : ∃ fn start, c.run = some fn ∧ Tried ctx o fn start start r.attempts
  few : r.attempts.length ≤ o.most

theorem walkJudges {checks : List Check} (valid : ∀ c ∈ checks, c.name ≠ "" ∧ c.run ≠ none) (now : Nat) :
    ∃ rs, walk ctx o checks now = some rs ∧ List.Forall₂ (Judges ctx o) checks rs := by
  induction checks generalizing now with
  | nil => exact ⟨[],rfl,.nil⟩
  | cons c checks ih =>
    obtain ⟨named,some'⟩ := valid c List.mem_cons_self
    obtain ⟨fn,has⟩ := Option.ne_none_iff_exists'.mp some'
    have rest := fun d mem => valid d (List.mem_cons_of_mem _ mem)
    obtain ⟨rs,walked,judged⟩ :=
      ih rest (((attempts ctx o fn now o.most now).getLast?.map Attempt.ended).getD now)
    have judges : Judges ctx o c ⟨c.name,attempts ctx o fn now o.most now⟩ :=
      ⟨rfl,⟨fn,now,has,triesTried checkTries⟩,attemptsFew⟩
    refine ⟨_::rs,?_,.cons judges judged⟩
    have function : c.fn = some fn := (if_neg named).trans has
    simp only [walk,function,bind,Option.bind_some,walked]

theorem judgedErr {checks : List Check} {rs : List Result} (judged : List.Forall₂ (Judges ctx o) checks rs) :
    ∀ r ∈ rs, r.err.isSome = true ↔ ∀ a ∈ r.attempts, a.err ≠ none := by
  induction judged with
  | nil => exact fun r mem => absurd mem List.not_mem_nil
  | cons one rest ih =>
    intro r mem
    obtain rfl | old := List.mem_cons.mp mem
    · obtain ⟨fn,start,_,tried⟩ := one.tried
      exact triedErr tried r.name
    · exact ih r old

theorem verdictTells {checks : List Check} (valid : ∀ c ∈ checks, c.name ≠ "" ∧ c.run ≠ none) (now : Nat) :
    ∃ rs, walk ctx o checks now = some rs ∧ List.Forall₂ (Judges ctx o) checks rs ∧
      (run ctx checks o now = .passed ↔ ∀ r ∈ rs, ∃ a ∈ r.attempts, a.err = none) ∧
      ∀ names n, run ctx checks o now = .failed names n → n = checks.length ∧
        ∀ name, name ∈ names ↔ ∃ r ∈ rs, r.name = name ∧ ∀ a ∈ r.attempts, a.err ≠ none := by
  obtain ⟨rs,walked,judged⟩ := walkJudges valid now
  have errs := judgedErr judged
  have told : run ctx checks o now = if failing rs = [] then .passed else .failed (failing rs) checks.length := by
    unfold run
    rw [walked]
  have named (name : String) : name ∈ failing rs ↔ ∃ r ∈ rs, r.name = name ∧ ∀ a ∈ r.attempts, a.err ≠ none := by
    simp only [failing,List.mem_map,List.mem_filter]
    constructor
    · rintro ⟨r,⟨mem,failed⟩,same⟩
      exact ⟨r,mem,same,(errs r mem).mp failed⟩
    · rintro ⟨r,mem,same,failed⟩
      exact ⟨r,⟨mem,(errs r mem).mpr failed⟩,same⟩
  refine ⟨rs,walked,judged,?_,fun names n failed => ?_⟩
  · rw [told]
    constructor
    · intro passed r mem
      by_contra never
      have some' : r.name ∈ failing rs := (named r.name).mpr ⟨r,mem,rfl,fun a inside none' => never ⟨a,inside,none'⟩⟩
      rw [if_neg (List.ne_nil_of_mem some')] at passed
      cases passed
    · intro all
      refine if_pos (List.eq_nil_iff_forall_not_mem.mpr (fun name mem => ?_))
      obtain ⟨r,inside,_,failed⟩ := (named name).mp mem
      obtain ⟨a,tried,none'⟩ := all r inside
      exact failed a tried none'
  · rw [told] at failed
    split at failed
    · cases failed
    · cases failed
      exact ⟨rfl,named⟩

def outbox : Fn := fun t deadline =>
  (min second (deadline-t),if t < 40*second then .failed "3 events older than two minutes are still unpublished" else .passed)
def ping : Fn := fun _ _ => (second,.panicked "nil map")

def release : List Check := [⟨"outbox","no event older than two minutes is still unpublished",some outbox⟩,
  ⟨"gateway-ping","/ping answers",some ping⟩]

theorem pingNamed : ∃ rs, walk none jobOptions release 0 = some rs ∧
    ∃ r ∈ rs, r.name = "gateway-ping" ∧ ∀ a ∈ r.attempts, a.err ≠ none := by
  have valid : ∀ c ∈ release, c.name ≠ "" ∧ c.run ≠ none := by
    intro c mem
    obtain rfl | rfl : c = _ ∨ c = _ := by simpa [release] using mem
    · exact ⟨by decide,Option.some_ne_none _⟩
    · exact ⟨by decide,Option.some_ne_none _⟩
  have told : run none release jobOptions 0 = .failed ["gateway-ping"] 2 := by decide +kernel
  obtain ⟨rs,walked,_,_,failed⟩ := verdictTells valid 0
  exact ⟨rs,walked,((failed _ _ told).2 "gateway-ping").mp List.mem_cons_self⟩

end Tried
section Healed
variable {o : Options} {fn : Fn} {start now since : Nat} {as : List Attempt}

structure Healed (fn : Fn) (since : Nat) : Prop where
  minds : ∀ t deadline, t ≤ deadline → t + (fn t deadline).1 ≤ deadline
  passes : ∀ t deadline, since ≤ t → (fn t deadline).2 = .passed

theorem triesHealed (healed : Healed fn since) (early : (since : Int) + o.perAttempt + o.every ≤ start + o.retryFor)
    (tries : Tries none o fn start now as) : ∃ a ∈ as, a.err = none := by
  induction tries with
  | again now as stays rest ih =>
    obtain ⟨a,mem,none'⟩ := ih
    exact ⟨a,List.mem_cons_of_mem _ mem,none'⟩
  | last now left =>
    refine ⟨_,List.mem_singleton.mpr rfl,?_⟩
    by_cases late : since ≤ now
    · show safely (fn now _).2 = none
      rw [healed.passes now _ late]
      rfl
    · have minds : (tryOnce none o fn now).ended ≤ now + o.perAttempt :=
        healed.minds now (now+o.perAttempt) (Nat.le_add_right _ _)
      simp only [settled,expired,Option.any_none,Bool.or_false,Bool.or_eq_true,decide_eq_true_eq,Option.isNone_iff_eq_none]
        at left
      obtain none' | short := left
      · exact none'
      · omega

theorem walkHealed {checks : List Check} {rs : List Result} (healed : ∀ c ∈ checks, ∀ fn, c.run = some fn → Healed fn since)
    (early : (since : Int) + o.perAttempt + o.every ≤ now + o.retryFor) (walked : walk none o checks now = some rs) :
    ∀ r ∈ rs, ∃ a ∈ r.attempts, a.err = none := by
  induction checks generalizing now rs with
  | nil =>
    cases Option.some.inj walked
    exact fun r mem => absurd mem List.not_mem_nil
  | cons c checks ih =>
    simp only [walk,bind,Option.bind_eq_some_iff] at walked
    obtain ⟨fn,function,more,rest,last⟩ := walked
    have has : c.run = some fn := by
      unfold Check.fn at function
      split at function <;> try contradiction
      exact function
    cases Option.some.inj last
    have tries : Tries none o fn now now (attempts none o fn now o.most now) := checkTries
    intro r mem
    obtain rfl | old := List.mem_cons.mp mem
    · exact triesHealed (healed c List.mem_cons_self fn has) early tries
    · -- the next check starts no earlier
      refine ih (fun d inside => healed d (List.mem_cons_of_mem _ inside)) ?_ rest r old
      have tried := triesTried tries
      have later : now ≤ ((attempts none o fn now o.most now).getLast?.map Attempt.ended).getD now := by
        rw [List.getLast?_eq_some_getLast tried.some']
        exact triedEnded tried (List.getLast_mem tried.some')
      omega

theorem healedPasses {checks : List Check} (valid : ∀ c ∈ checks, c.name ≠ "" ∧ c.run ≠ none)
    (healed : ∀ c ∈ checks, ∀ fn, c.run = some fn → Healed fn since)
    (early : (since : Int) + o.perAttempt + o.every ≤ now + o.retryFor) : run none checks o now = .passed := by
  obtain ⟨rs,walked,_,passed,_⟩ := verdictTells valid now
  exact passed.mpr (walkHealed healed early walked)

theorem outboxHealed : Healed outbox (40*second) := by
  refine ⟨fun t deadline before => ?_,fun t deadline late => ?_⟩
  · have short : min second (deadline-t) ≤ deadline-t := Nat.min_le_right _ _
    show t + min second (deadline-t) ≤ deadline
    omega
  · exact if_neg (Nat.not_lt.mpr late)

theorem outboxPasses : runVerify [⟨"outbox","no event older than two minutes is still unpublished",some outbox⟩] 0 = 0 := by
  have early : ((40*second : Nat) : Int) + jobOptions.perAttempt + jobOptions.every ≤ (0 : Nat) + jobOptions.retryFor := by
    decide
  refine if_pos (healedPasses ?_ ?_ early)
  · intro c mem
    cases List.mem_singleton.mp mem
    exact ⟨by decide,Option.some_ne_none _⟩
  · intro c mem fn has
    cases List.mem_singleton.mp mem
    cases Option.some.inj has
    exact outboxHealed

end Healed
end DevkitCommon.Verifyx
