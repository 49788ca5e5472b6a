import DevkitCommon.Kitexx.Authorization

/-! The callers rules as they are documented and as the middleware takes them: they part on
calls without a caller name, where a rule names the method and allows anybody. -/
namespace DevkitCommon.Kitexx.Server
open Redis Text Authx

variable {self : String} {c : CallersConfig} {getenv : Getenv} {ctx : Ctx}

instance (r : CallerRule) (method : String) : Decidable (r.About method) := by
  unfold CallerRule.About; infer_instance

def CallerRule.Allows (r : CallerRule) (name : String) : Prop := name ∈ r.allow ∨ "*" ∈ r.allow

instance (r : CallerRule) (name : String) : Decidable (r.Allows name) := by
  unfold CallerRule.Allows; infer_instance

def Documented (self : String) (c : CallersConfig) (getenv : Getenv) (name method : String) : Prop :=
  name ≠ "" ∧ name = self ∨
    name ≠ "" ∧ (∃ r ∈ c.rules, r.About method ∧ r.Allows name) ∨
      (∀ r ∈ c.rules, ¬r.About method) ∧ c.defaultPolicy getenv ≠ callersDeny

instance (self : String) (c : CallersConfig) (getenv : Getenv) (name method : String) :
    Decidable (Documented self c getenv name method) := by unfold Documented; infer_instance

def LetsThrough (self : String) (c : CallersConfig) (getenv : Getenv) (name method : String) : Prop :=
  name ≠ "" ∧ name = self ∨
    (∃ r ∈ c.rules, method ∈ r.methods ∧ r.Allows name) ∨
      name ≠ "" ∧ (∃ r ∈ c.rules, "*" ∈ r.methods ∧ r.Allows name) ∨
        (∀ r ∈ c.rules, ¬r.About method) ∧ c.defaultPolicy getenv ≠ callersDeny

instance (self : String) (c : CallersConfig) (getenv : Getenv) (name method : String) :
    Decidable (LetsThrough self c getenv name method) := by unfold LetsThrough; infer_instance

theorem listsAllow {m name : String} :
    name ∈ (c.allowed.lookup m).getD [] ∨ "*" ∈ (c.allowed.lookup m).getD [] ↔
      ∃ r ∈ c.rules, m ∈ r.methods ∧ r.Allows name := by
  rw [allowedTables.listed,allowedTables.listed]
  constructor
  · rintro (⟨r,mem,named,allows⟩ | ⟨r,mem,named,allows⟩)
    · exact ⟨r,mem,named,.inl allows⟩
    · exact ⟨r,mem,named,.inr allows⟩
  · rintro ⟨r,mem,named,allows | allows⟩
    · exact .inl ⟨r,mem,named,allows⟩
    · exact .inr ⟨r,mem,named,allows⟩

theorem unlisted {m : String} : c.allowed.lookup m = none ↔ ∀ r ∈ c.rules, m ∉ r.methods := by
  constructor
  · exact unruled
  · intro none'
    cases found : c.allowed.lookup m with
    | none => rfl
    | some list =>
      obtain ⟨r,mem,named⟩ := (allowedTables.named m).mp (by rw [found]; rfl)
      exact absurd named (none' r mem)

theorem about {method : String} :
    (∀ r ∈ c.rules, ¬r.About method) ↔ c.allowed.lookup method = none ∧ c.allowed.lookup "*" = none := by
  rw [unlisted,unlisted]
  constructor
  · exact fun none' => ⟨fun r mem named => none' r mem (.inl named),fun r mem named => none' r mem (.inr named)⟩
  · exact fun none' r mem named => named.elim (none'.1 r mem) (none'.2 r mem)

theorem callersIs (next : Endpoint) : callers self c getenv next ctx =
    if LetsThrough self c getenv ctx.caller ctx.method then next ctx else refuseCaller ctx.method ctx.caller := by
  unfold callers
  dsimp only
  split
  · rename_i off
    have none' (m : String) : c.allowed.lookup m = none :=
      AList.lookup_eq_none.mpr (fun mem => by rw [AList.mem_keys,off.1] at mem; exact absurd mem List.not_mem_nil)
    rw [if_pos]
    exact .inr (.inr (.inr ⟨about.mpr ⟨none' _,none' _⟩,by rw [off.2]; decide⟩))
  · split
    · rename_i own
      rw [if_pos]
      exact .inl ⟨fun none' => own.1 (own.2.symm.trans none'),own.2⟩
    · rename_i other
      have notOwn : ¬(ctx.caller ≠ "" ∧ ctx.caller = self) := fun own => other ⟨fun none' => own.1 (own.2.trans none'),own.2⟩
      split
      · rename_i none' none''
        have free := about.mpr ⟨none',none''⟩
        have same : LetsThrough self c getenv ctx.caller ctx.method ↔ ¬c.defaultPolicy getenv = callersDeny := by
          constructor
          · rintro (own | ⟨r,mem,named,-⟩ | ⟨-,r,mem,named,-⟩ | ⟨-,policy⟩)
            · exact absurd own notOwn
            · exact absurd named (unlisted.mp none' r mem)
            · exact absurd named (unlisted.mp none'' r mem)
            · exact policy
          · exact fun policy => .inr (.inr (.inr ⟨free,policy⟩))
        rw [if_congr same rfl rfl,ite_not]
      · rename_i listed
        refine if_congr ?_ rfl rfl
        simp only [Bool.or_eq_true,Bool.and_eq_true,List.contains_iff_mem,bne_iff_ne,listsAllow]
        constructor
        · rintro (named | ⟨some',every⟩)
          · exact .inr (.inl named)
          · exact .inr (.inr (.inl ⟨some',every⟩))
        · rintro (own | named | every | ⟨free,-⟩)
          · exact absurd own notOwn
          · exact .inl named
          · exact .inr every
          · exact absurd (about.mp free).2 (listed (about.mp free).1)

theorem letsThrough : (∀ next, callers self c getenv next ctx = next ctx) ↔
    LetsThrough self c getenv ctx.caller ctx.method := by
  constructor
  · intro passes
    refine Decidable.byContradiction fun refused => ?_
    have same := passes .handled
    rw [callersIs,if_neg refused] at same
    cases same
  · intro lets next
    rw [callersIs,if_pos lets]

theorem callersDocumented (self : String) (c : CallersConfig) (getenv : Getenv) (ctx : Ctx) :
    ((∀ next, callers self c getenv next ctx = next ctx) ↔ Documented self c getenv ctx.caller ctx.method) ↔
      (ctx.caller = "" → ∀ r ∈ c.rules, ctx.method ∈ r.methods → "" ∉ r.allow ∧ "*" ∉ r.allow) := by
  rw [letsThrough]
  constructor
  · intro same unnamed r mem named
    have refused : ¬Documented self c getenv ctx.caller ctx.method := by
      rintro (own | ruled | free)
      · exact own.1 unnamed
      · exact ruled.1 unnamed
      · exact free.1 r mem (.inl named)
    have none' : ¬r.Allows ctx.caller := fun allows => refused (same.mp (.inr (.inl ⟨r,mem,named,allows⟩)))
    rw [CallerRule.Allows,unnamed,not_or] at none'
    exact none'
  · intro named
    constructor
    · rintro (own | ⟨r,mem,about,allows⟩ | ⟨some',r,mem,about,allows⟩ | free)
      · exact .inl own
      · have some' : ctx.caller ≠ "" := by
          intro unnamed
          obtain ⟨none',none''⟩ := named unnamed r mem about
          rw [CallerRule.Allows,unnamed] at allows
          exact allows.elim none' none''
        exact .inr (.inl ⟨some',r,mem,.inl about,allows⟩)
      · exact .inr (.inl ⟨some',r,mem,.inr about,allows⟩)
      · exact .inr (.inr free)
    · rintro (own | ⟨some',r,mem,about | about,allows⟩ | free)
      · exact .inl own
      · exact .inr (.inl ⟨r,mem,about,allows⟩)
      · exact .inr (.inr (.inl ⟨some',r,mem,about,allows⟩))
      · exact .inr (.inr (.inr free))

theorem unnamedPasses : ¬∀ (self : String) (c : CallersConfig) (getenv : Getenv) (ctx : Ctx),
    c.validate getenv = none →
      ((∀ next, callers self c getenv next ctx = next ctx) ↔ Documented self c getenv ctx.caller ctx.method) := by
  intro all
  have same := all "ser-wallet" ⟨"deny",[⟨["Ping"],["*"]⟩]⟩ (fun _ => "") ⟨⟨"Ping","",.nothing,none,none,none,.nothing⟩,""⟩
    (by decide)
  rw [letsThrough] at same
  have refused : ¬Documented "ser-wallet" ⟨"deny",[⟨["Ping"],["*"]⟩]⟩ (fun _ => "") "" "Ping" := by decide
  exact refused (same.mp (by decide))

end DevkitCommon.Kitexx.Server
