import DevkitCommon.Devroute.Balancer
import DevkitCommon.Lib.IP
import DevkitCommon.Lib.Text

/-! Which instance a request gets: the guard, the merge of the baseline with the takeover
group, the split and the picker together. The dev-tag is what keeps the two groups apart: a
baseline instance that claims one is refused, a takeover instance without a valid one too. -/
namespace DevkitCommon.Devroute
open Authx IP Text

structure Registered where
  addr : String
  weight : Int
  metadata : List (String × String)
  deriving DecidableEq, Repr

def Registered.tag (x : Registered) : String := (x.metadata.lookup tagMetadata).getD ""

def Registered.toInstance (x : Registered) : Instance := ⟨x.addr,x.weight,x.metadata⟩

def takeoverPortMin : Int := 20000
def takeoverPortMax : Int := 32000

structure InstanceGuard where
  baseline : List IPNet
  deriving DecidableEq

def InstanceGuard.inBaselineNet (g : InstanceGuard) (ip : List UInt8) : Bool := g.baseline.any (fun n => n.contains ip)

def allowBaseline (g : Option InstanceGuard) (addr : String) : Bool :=
  match g with
  | none => true
  | some g =>
    if g.baseline = [] then true
    else match splitHostPort addr.toList with
      | none => false
      | some (host,_) => (parseIP host).any g.inBaselineNet

def allowTakeover (g : Option InstanceGuard) (addr : String) : Bool :=
  match splitHostPort addr.toList with
  | none => false
  | some (host,portStr) =>
    match parseInt 64 (String.ofList portStr) with
    | none => false
    | some port =>
      if port < takeoverPortMin ∨ takeoverPortMax ≤ port then false
      else match parseIP host with
        | none => false
        | some ip => match g with
          | none => true
          | some g => g.baseline = [] || !g.inBaselineNet ip

section Merge
variable (g : Option InstanceGuard)

def keepsBaseline (x : Registered) : Bool := x.tag == "" && allowBaseline g x.addr
def keepsTakeover (x : Registered) : Bool := validTag x.tag.toList && allowTakeover g x.addr

def mergeInstances (baseline takeovers : List Registered) : List Instance :=
  (baseline.filter (keepsBaseline g)).map Registered.toInstance ++
    (takeovers.filter (keepsTakeover g)).map Registered.toInstance

end Merge

def Serves {σ π : Type} (base : Base σ π) (p : π) (instances : List Instance) : Prop :=
  (∀ ctx draw x, base.next p ctx draw = some x → x ∈ instances) ∧
    ∀ ctx draw, (∃ x ∈ instances, 0 < x.weight) → base.next p ctx draw ≠ none

/- The default balancer is a Rebalancer: a picker for a key that was just rebalanced is of
that result, and so is one for a result that is not cached. -/
structure Lawful {σ π : Type} (base : Base σ π) : Prop where
  rebalancer : base.rebalancer = true
  told : ∀ cache result, result.cacheable = true →
    Serves base (base.getPicker (base.rebalance cache result) result).2 result.instances
  spot : ∀ cache result, result.cacheable = false → Serves base (base.getPicker cache result).2 result.instances

section Reach
variable {σ π : Type} (base : Base σ π) (g : Option InstanceGuard) (baseline takeovers : List Registered)

def reached (cacheable : Bool) (key : String) (cache : σ) (ctx : Context) (count draw : Nat) : Option Instance :=
  (build base cache ⟨cacheable,key,mergeInstances g baseline takeovers⟩).2.next base ctx count draw

def FromBaseline (x : Instance) : Prop :=
  ∃ y ∈ baseline, x = y.toInstance ∧ y.tag = "" ∧ allowBaseline g y.addr = true

def FromTakeover (tag : String) (x : Instance) : Prop :=
  ∃ y ∈ takeovers, x = y.toInstance ∧ y.tag = tag ∧ validTag tag.toList = true ∧ allowTakeover g y.addr = true

def taken (tag : String) : Bool := takeovers.any (fun y => keepsTakeover g y && y.tag == tag)

structure Plain (got : Option Instance) : Prop where
  inside : ∀ x, got = some x → FromBaseline g baseline x
  served : (∃ x, FromBaseline g baseline x ∧ 0 < x.weight) → got ≠ none
  empty : (¬ ∃ x, FromBaseline g baseline x) → got = none

structure Isolated (ctx : Context) (got : Option Instance) : Prop where
  untagged : tagsOf ctx = [] → ∀ x, got = some x → FromBaseline g baseline x
  tagged : ∀ tag, (tagsOf ctx).find? (taken g takeovers) = some tag → ∃ x, got = some x ∧ FromTakeover g takeovers tag x
  otherwise : (tagsOf ctx).find? (taken g takeovers) = none → Plain g baseline got

end Reach

section Proofs
variable {σ π : Type} {base : Base σ π} {g : Option InstanceGuard} {baseline takeovers : List Registered}
  {tagged : List (String × List Instance)} {count : Nat} {tags : List String}

theorem registeredTag (x : Registered) : x.toInstance.tag = x.tag := rfl

theorem validNe {tag : String} (valid : validTag tag.toList = true) : tag ≠ "" := by
  rintro rfl
  exact absurd valid (by decide)

theorem mergedTagged {tag : String} (some' : tag ≠ "") :
    (mergeInstances g baseline takeovers).filter (fun x => x.tag == tag) =
      (takeovers.filter (fun y => keepsTakeover g y && y.tag == tag)).map Registered.toInstance := by
  unfold mergeInstances
  rw [List.filter_append,List.filter_map,List.filter_map,List.filter_filter,List.filter_filter]
  have none' : baseline.filter (fun x => ((fun x : Instance => x.tag == tag) ∘ Registered.toInstance) x &&
      keepsBaseline g x) = [] := by
    refine List.filter_eq_nil_iff.mpr (fun x _ both => ?_)
    simp only [Function.comp_apply,Bool.and_eq_true,beq_iff_eq,keepsBaseline,registeredTag] at both
    exact some' (both.1.symm.trans both.2.1)
  rw [none',List.map_nil,List.nil_append]
  refine congrArg _ (List.filter_congr (fun x _ => ?_))
  simp only [Function.comp_apply,registeredTag]
  exact Bool.and_comm _ _

theorem mergedBaseline : (mergeInstances g baseline takeovers).filter (fun x => x.tag == "") =
    (baseline.filter (keepsBaseline g)).map Registered.toInstance := by
  unfold mergeInstances
  rw [List.filter_append,List.filter_map,List.filter_map,List.filter_filter,List.filter_filter]
  have none' : takeovers.filter (fun x => ((fun x : Instance => x.tag == "") ∘ Registered.toInstance) x &&
      keepsTakeover g x) = [] := by
    refine List.filter_eq_nil_iff.mpr (fun x _ both => ?_)
    simp only [Function.comp_apply,Bool.and_eq_true,beq_iff_eq,keepsTakeover,registeredTag] at both
    exact validNe both.2.1 both.1
  rw [none',List.map_nil,List.append_nil]
  refine congrArg _ (List.filter_congr (fun x _ => ?_))
  simp only [Function.comp_apply,registeredTag,keepsBaseline]
  cases x.tag == "" <;> rfl

theorem fromBaseline {x : Instance} (mem : x ∈ (baseline.filter (keepsBaseline g)).map Registered.toInstance) :
    FromBaseline g baseline x := by
  obtain ⟨y,kept,rfl⟩ := List.mem_map.mp mem
  obtain ⟨mem,keeps⟩ := List.mem_filter.mp kept
  simp only [keepsBaseline,Bool.and_eq_true,beq_iff_eq] at keeps
  exact ⟨y,mem,rfl,keeps⟩

theorem baselineMem {x : Instance} (inside : FromBaseline g baseline x) :
    x ∈ (baseline.filter (keepsBaseline g)).map Registered.toInstance := by
  obtain ⟨y,mem,rfl,plain,allowed⟩ := inside
  refine List.mem_map_of_mem (List.mem_filter.mpr ⟨mem,?_⟩)
  simp only [keepsBaseline,plain,allowed,beq_self_eq_true,Bool.and_self]

theorem pickFirst (count : Nat) {has : String → Bool} (filled : ∀ t ∈ tags, has t = true ↔ (tagged.lookup t).getD [] ≠ []) :
    match tags.find? has with
    | some t => ∃ x, pick tagged count tags = some x ∧ x ∈ (tagged.lookup t).getD []
    | none => pick tagged count tags = none := by
  induction tags with
  | nil => rfl
  | cons t rest ih =>
    have tail := ih (fun u mem => filled u (List.mem_cons_of_mem _ mem))
    rw [List.find?_cons]
    cases here : has t with
    | true =>
      have some' := (filled t List.mem_cons_self).mp here
      have short : (count+1) % 2^64 % ((tagged.lookup t).getD []).length < ((tagged.lookup t).getD []).length :=
        Nat.mod_lt _ (List.length_pos_of_ne_nil some')
      refine ⟨((tagged.lookup t).getD [])[(count+1) % 2^64 % ((tagged.lookup t).getD []).length],?_,List.getElem_mem short⟩
      rw [pick]
      simp only [if_pos some',List.getElem?_eq_getElem short]
    | false =>
      have none' : (tagged.lookup t).getD [] = [] := by
        by_contra some'
        rw [(filled t List.mem_cons_self).mpr some'] at here
        contradiction
      rw [pick]
      simp only [none',ne_eq,not_true_eq_false,if_false]
      exact tail

theorem validTags {parts : List (List Char)} {tags : List String} (read : parseTags parts = some tags) :
    ∀ t ∈ tags, validTag t.toList = true := by
  induction parts generalizing tags with
  | nil =>
    cases Option.some.inj read
    exact fun _ mem => absurd mem List.not_mem_nil
  | cons p rest ih =>
    unfold parseTags at read
    dsimp only at read
    split at read
    · rename_i valid
      obtain ⟨more,later,rfl⟩ := Option.map_eq_some_iff.mp read
      intro t mem
      rcases List.mem_cons.mp mem with rfl | mem
      · simpa using valid
      · exact ih later t mem
    · exact absurd read.symm (Option.some_ne_none _)

theorem tagsValid (ctx : Context) : ∀ t ∈ tagsOf ctx, validTag t.toList = true := by
  intro t mem
  unfold tagsOf at mem
  split at mem
  · exact absurd mem List.not_mem_nil
  split at mem
  · exact absurd mem List.not_mem_nil
  rename_i v _
  cases read : parse v with
  | none =>
    rw [read] at mem
    exact absurd mem List.not_mem_nil
  | some tags =>
    rw [read] at mem
    unfold parse at read
    dsimp only at read
    split at read
    · exact absurd read.symm (Option.some_ne_none _)
    split at read
    · exact absurd read.symm (Option.some_ne_none _)
    exact validTags read t mem

theorem takenFilled {t : String} (valid : validTag t.toList = true) : taken g takeovers t = true ↔
    ((split (mergeInstances g baseline takeovers)).1.lookup t).getD [] ≠ [] := by
  rw [splitTagged _ (validNe valid),mergedTagged (validNe valid),ne_eq,List.map_eq_nil_iff,List.filter_eq_nil_iff,
    taken,List.any_eq_true]
  push Not
  rfl

theorem fromTakeover {t : String} {x : Instance} (some' : t ≠ "")
    (mem : x ∈ ((split (mergeInstances g baseline takeovers)).1.lookup t).getD []) : FromTakeover g takeovers t x := by
  rw [splitTagged _ some',mergedTagged some'] at mem
  obtain ⟨y,kept,rfl⟩ := List.mem_map.mp mem
  obtain ⟨mem,keeps⟩ := List.mem_filter.mp kept
  simp only [keepsTakeover,Bool.and_eq_true,beq_iff_eq] at keeps
  exact ⟨y,mem,rfl,keeps.2,keeps.2 ▸ keeps.1.1,keeps.1.2⟩

theorem leftBaseline : (split (mergeInstances g baseline takeovers)).2 =
    (baseline.filter (keepsBaseline g)).map Registered.toInstance := (splitBaseline _).trans mergedBaseline

theorem builtServes (lawful : Lawful base) (cache : σ) (result : Result) :
    Serves base (base.getPicker (if base.rebalancer && result.cacheable then base.rebalance cache result.baseline else cache)
      result.baseline).2 (split result.instances).2 := by
  cases cacheable : result.cacheable with
  | true =>
    rw [lawful.rebalancer,Bool.and_self,if_pos rfl]
    exact lawful.told cache result.baseline cacheable
  | false =>
    rw [Bool.and_false,if_neg Bool.false_ne_true]
    exact lawful.spot cache result.baseline cacheable

theorem servesPlain {p : π} {ctx : Context} {draw : Nat}
    (serves : Serves base p (split (mergeInstances g baseline takeovers)).2) : Plain g baseline (base.next p ctx draw) := by
  rw [leftBaseline] at serves
  have inside : ∀ x, base.next p ctx draw = some x → FromBaseline g baseline x :=
    fun x got => fromBaseline (serves.1 ctx draw x got)
  refine ⟨inside,?_,?_⟩
  · rintro ⟨x,here,heavy⟩
    exact serves.2 ctx draw ⟨x,baselineMem here,heavy⟩
  · intro empty
    cases got : base.next p ctx draw with
    | none => rfl
    | some x => exact absurd ⟨x,inside x got⟩ empty

theorem plainGuarded {got : Option Instance} (plain : Plain g baseline got) :
    Plain g baseline (if (split (mergeInstances g baseline takeovers)).2 != [] then got else none) := by
  split
  · exact plain
  · rename_i empty
    rw [leftBaseline,bne_iff_ne,not_not] at empty
    have nobody : ¬ ∃ x, FromBaseline g baseline x := by
      rintro ⟨x,inside⟩
      have mem := baselineMem inside
      rw [empty] at mem
      exact List.not_mem_nil mem
    exact ⟨fun _ got => absurd got.symm (Option.some_ne_none _),fun ⟨x,here,_⟩ => absurd ⟨x,here⟩ nobody,fun _ => rfl⟩

theorem noneTaken {t : String} (empty : (split (mergeInstances g baseline takeovers)).1 = [])
    (valid : validTag t.toList = true) : taken g takeovers t = false := by
  cases here : taken g takeovers t with
  | false => rfl
  | true =>
    have some' : ((split (mergeInstances g baseline takeovers)).1.lookup t).getD [] ≠ [] := (takenFilled valid).mp here
    rw [empty] at some'
    exact absurd rfl some'

end Proofs

section Isolation
variable {σ π : Type} {base : Base σ π}

theorem isolated (lawful : Lawful base) (g : Option InstanceGuard) (baseline takeovers : List Registered)
    (cacheable : Bool) (key : String) (cache : σ) (ctx : Context) (count draw : Nat) :
    Isolated g baseline takeovers ctx (reached base g baseline takeovers cacheable key cache ctx count draw) := by
  have valid := tagsValid ctx
  have serves := builtServes lawful cache ⟨cacheable,key,mergeInstances g baseline takeovers⟩
  have plain : Plain g baseline (base.next _ ctx draw) := servesPlain serves
  unfold reached build
  by_cases empty : (split (mergeInstances g baseline takeovers)).1 = []
  · -- no takeover instance: build hands out the default balancer's picker
    simp only [if_pos empty,Picker.next]
    have none' : (tagsOf ctx).find? (taken g takeovers) = none :=
      List.find?_eq_none.mpr (fun t mem => Bool.eq_false_iff.mp (noneTaken empty (valid t mem)))
    exact ⟨fun _ => plain.inside,fun _ first => absurd (none'.symm.trans first) (Option.some_ne_none _).symm,fun _ => plain⟩
  simp only [if_neg empty,Picker.next]
  have filled : ∀ t ∈ tagsOf ctx, taken g takeovers t = true ↔
      ((split (mergeInstances g baseline takeovers)).1.lookup t).getD [] ≠ [] := fun t mem => takenFilled (valid t mem)
  have picks := pickFirst count filled
  cases first : (tagsOf ctx).find? (taken g takeovers) with
  | some t =>
    simp only [first] at picks
    obtain ⟨x,picked,mem⟩ := picks
    have asked := List.mem_of_find?_eq_some first
    have inside := fromTakeover (validNe (valid t asked)) mem
    simp only [picked]
    refine ⟨fun untagged => ?_,fun u named => ?_,fun none' => ?_⟩
    · rw [untagged] at asked
      exact absurd asked List.not_mem_nil
    · cases Option.some.inj (first.symm.trans named)
      exact ⟨x,rfl,inside⟩
    · exact absurd (first.symm.trans none') (Option.some_ne_none _)
  | none =>
    simp only [first] at picks
    simp only [picks]
    have guarded : Plain g baseline (if (split (mergeInstances g baseline takeovers)).2 != [] then base.next _ ctx draw else none) :=
      plainGuarded plain
    exact ⟨fun _ => guarded.inside,fun _ named => absurd (first.symm.trans named) (Option.some_ne_none _).symm,fun _ => guarded⟩

def weights : List Instance → Nat
  | [] => 0
  | x::rest => x.weight.toNat + weights rest

def drawn (draw : Nat) : List Instance → Option Instance
  | [] => none
  | x::rest => if draw < x.weight.toNat then some x else drawn (draw - x.weight.toNat) rest

def weighted : Base (List (String × List Instance)) (List Instance) where
  rebalancer := true
  rebalance := fun cache r => (r.cacheKey,r.instances)::cache
  getPicker := fun cache r =>
    match r.cacheable,cache.lookup r.cacheKey with
    | true,some p => (cache,p)
    | true,none => ((r.cacheKey,r.instances)::cache,r.instances)
    | false,_ => (cache,r.instances)
  delete := fun cache r => cache.filter (fun e => e.1 != r.cacheKey)
  next := fun p _ draw => if weights p = 0 then none else drawn (draw % weights p) p

theorem drawnMem {draw : Nat} {instances : List Instance} {x : Instance} (got : drawn draw instances = some x) :
    x ∈ instances := by
  induction instances generalizing draw with
  | nil => exact absurd got.symm (Option.some_ne_none _)
  | cons y rest ih =>
    unfold drawn at got
    split at got
    · cases Option.some.inj got
      exact List.mem_cons_self
    · exact List.mem_cons_of_mem _ (ih got)

theorem drawnSome {draw : Nat} {instances : List Instance} (short : draw < weights instances) :
    drawn draw instances ≠ none := by
  induction instances generalizing draw with
  | nil => exact absurd short (Nat.not_lt_zero _)
  | cons y rest ih =>
    unfold drawn
    split
    · exact Option.some_ne_none _
    · rename_i far
      have total : weights (y::rest) = y.weight.toNat + weights rest := rfl
      exact ih (by omega)

theorem weightsPos {instances : List Instance} {x : Instance} (mem : x ∈ instances) (heavy : 0 < x.weight) :
    0 < weights instances := by
  induction instances with
  | nil => exact absurd mem List.not_mem_nil
  | cons y rest ih =>
    unfold weights
    rcases List.mem_cons.mp mem with rfl | later
    · exact Nat.add_pos_left (Int.lt_toNat.mpr heavy) _
    · exact Nat.add_pos_right _ (ih later)

theorem weightedServes (instances : List Instance) : Serves weighted instances instances := by
  constructor
  · intro ctx draw x got
    dsimp only [weighted] at got
    split at got
    · exact absurd got.symm (Option.some_ne_none _)
    · exact drawnMem got
  · rintro ctx draw ⟨x,mem,heavy⟩
    have some' := weightsPos mem heavy
    dsimp only [weighted]
    rw [if_neg some'.ne']
    exact drawnSome (Nat.mod_lt _ some')

theorem weightedLawful : Lawful weighted := by
  refine ⟨rfl,fun cache result cacheable => ?_,fun cache result cacheable => ?_⟩
  · have told : (weighted.getPicker (weighted.rebalance cache result) result).2 = result.instances := by
      simp only [weighted,cacheable,List.lookup_cons_self]
    rw [told]
    exact weightedServes _
  · have spot : (weighted.getPicker cache result).2 = result.instances := by simp only [weighted,cacheable]
    rw [spot]
    exact weightedServes _

def pods : InstanceGuard := ⟨[⟨[10,42,0,0],[255,255,0,0]⟩]⟩

def registered : List Registered := [⟨"10.42.1.5:8100",10,[]⟩,⟨"192.168.69.222:8100",10,[]⟩,
  ⟨"10.42.1.9:8100",10,[(tagMetadata,"alice")]⟩]
def takenOver : List Registered := [⟨"172.31.41.180:23001",10,[(tagMetadata,"alice")]⟩,
  ⟨"10.42.1.9:23001",10,[(tagMetadata,"bob")]⟩]

theorem aliceIsolated : let got := reached weighted (some pods) registered takenOver true "user" [] (some "bob, alice") 0 0
    Isolated (some pods) registered takenOver (some "bob, alice") got ∧
      got.map Instance.address = some "172.31.41.180:23001" := by
  exact ⟨isolated weightedLawful (some pods) registered takenOver true "user" [] (some "bob, alice") 0 0,by decide⟩

end Isolation
end DevkitCommon.Devroute
