import DevkitCommon.Devroute.Balancer

/-! What the balancer of tagged routing has cached for a key, against the changes that have
been made known to it. The miss of a GetPicker loads, builds and stores in separate steps: a
Rebalance or a Delete that comes in between is overwritten by it. -/
namespace DevkitCommon.Devroute
open Machine
variable {σ π : Type}

def Built (base : Base σ π) (s : State σ π) (version : Nat) (p : Picker π) : Prop :=
  ∃ (c : Nat) (call : Call π) (cache : σ), s.calls[c]? = some call ∧ call.version = version ∧
    p = (build base cache call.result).2

def Tagged (s : State σ π) (version : Nat) (set : List String) : Prop :=
  ∃ (c : Nat) (call : Call π), s.calls[c]? = some call ∧ call.version = version ∧
    ∀ t, t ∈ set ↔ t ≠ "" ∧ ∃ x ∈ call.result.instances, x.tag = t

structure Fresh (base : Base σ π) (s : State σ π) : Prop where
  picker : s.settled ≤ s.pickers.version
  active : s.settled ≤ s.active.version
  got : ∀ (c : Nat) (call : Call π) v p, s.calls[c]? = some call → call.got = some (v,p) →
    call.since ≤ v ∧ Built base s v p
  built : ∀ p, s.pickers.value = some p → Built base s s.pickers.version p
  tagged : ∀ set, s.active.value = some set → Tagged s s.active.version set

def newest (s : State σ π) : Action → Bool
  | .build c => (s.calls[c]?).all (fun call =>
      decide ((if call.result.cacheable then s.settled else call.since) ≤ call.version))
  | .store c | .deletePicker c | .deleteActive c => (s.calls[c]?).all (fun call => decide (s.settled ≤ call.version))
  | .leave c => (s.calls[c]?).all (fun call =>
      decide (call.version ≤ s.pickers.version ∧ call.version ≤ s.active.version))
  | _ => true

def Newest (s : State σ π) (a : Action) : Prop := newest s a = true
instance (s : State σ π) (a : Action) : Decidable (Newest s a) := by unfold Newest; infer_instance

section Does
variable (base : Base σ π) (s : State σ π)

inductive Does : Action → State σ π → Prop where
  | call (kind : Kind) (version : Nat) (result : Result) : Does (.call kind version result)
      {s with calls := s.calls ++ [⟨kind,version,result,first kind result.cacheable,s.settled,none⟩]}
  | hits {c call p} (found : s.calls[c]? = some call) (cached : s.pickers.value = some p) :
      Does (.load c) (s.setCall c {call with point := .returned,got := some (s.pickers.version,p)})
  | misses {c call} (found : s.calls[c]? = some call) : Does (.load c) (s.setCall c {call with point := .build})
  | builds {c call} (found : s.calls[c]? = some call) (cacheable : call.result.cacheable = true) :
      Does (.build c) ({s with
        base := (build base s.base call.result).1
        active := ⟨call.version,some call.result.active⟩}.setCall c
          {call with point := .store (build base s.base call.result).2})
  | uncached {c call} (found : s.calls[c]? = some call) (cacheable : call.result.cacheable = false) :
      Does (.build c) ({s with base := (build base s.base call.result).1}.setCall c
        {call with point := .returned,got := some (call.version,(build base s.base call.result).2)})
  | gets {c call p} (found : s.calls[c]? = some call) (here : call.point = .store p) :
      Does (.store c) ({s with pickers := ⟨call.version,some p⟩}.setCall c
        {call with point := .returned,got := some (call.version,p)})
  | stores {c call p} (found : s.calls[c]? = some call) (here : call.point = .store p) :
      Does (.store c) ({s with pickers := ⟨call.version,some p⟩}.setCall c {call with point := .leave})
  | deletesPicker {c call} (found : s.calls[c]? = some call) :
      Does (.deletePicker c) ({s with pickers := ⟨call.version,none⟩}.setCall c {call with point := .deleteActive})
  | deletesActive {c call} (found : s.calls[c]? = some call) :
      Does (.deleteActive c) ({s with active := ⟨call.version,none⟩}.setCall c {call with point := .deleteBase})
  | deletesBase {c call cache} (found : s.calls[c]? = some call) :
      Does (.deleteBase c) ({s with base := cache}.setCall c {call with point := .leave})
  | leaves {c call} (found : s.calls[c]? = some call) :
      Does (.leave c) ({s with settled := max s.settled call.version}.setCall c {call with point := .returned})

end Does

variable {base : Base σ π} {s t : State σ π} {a : Action}

theorem stepDoes (one : step base s a = some t) : Does base s a t := by
  cases a <;> simp only [step,bind,Option.bind_eq_some_iff,Option.some.injEq] at one
  case call kind version result => subst one; exact .call kind version result
  case load c =>
    obtain ⟨call,found,last⟩ := one
    split at last <;> try contradiction
    · rename_i p _ cached
      cases Option.some.inj last
      exact .hits found cached
    · cases Option.some.inj last
      exact .misses found
  case build c =>
    obtain ⟨call,found,last⟩ := one
    split at last <;> try contradiction
    · rename_i cacheable
      cases Option.some.inj last
      exact .builds found cacheable
    · rename_i cacheable
      cases Option.some.inj last
      exact .uncached found cacheable
  case store c =>
    obtain ⟨call,found,last⟩ := one
    split at last <;> try contradiction
    rename_i p here
    split at last <;> cases Option.some.inj last
    · exact .gets found here
    · exact .stores found here
  case deletePicker c =>
    obtain ⟨call,found,last⟩ := one
    split at last <;> try contradiction
    cases Option.some.inj last
    exact .deletesPicker found
  case deleteActive c =>
    obtain ⟨call,found,last⟩ := one
    split at last <;> try contradiction
    cases Option.some.inj last
    exact .deletesActive found
  case deleteBase c =>
    obtain ⟨call,found,last⟩ := one
    split at last <;> try contradiction
    cases Option.some.inj last
    exact .deletesBase found
  case leave c =>
    obtain ⟨call,found,last⟩ := one
    split at last <;> try contradiction
    cases Option.some.inj last
    exact .leaves found

structure Good (base : Base σ π) (s : State σ π) (call : Call π) : Prop where
  since : call.since ≤ s.settled
  got : ∀ v p, call.got = some (v,p) → call.since ≤ v ∧ Built base s v p
  carries : ∀ p, call.point = .store p → ∃ cache, p = (build base cache call.result).2

structure Kept (base : Base σ π) (s : State σ π) : Prop where
  fresh : Fresh base s
  calls : ∀ (c : Nat) (call : Call π), s.calls[c]? = some call → Good base s call

variable {c d : Nat} {call x y : Call π} {p : Picker π} {v : Nat}

theorem callStays (does : Does base s a t) (found : s.calls[d]? = some y) :
    ∃ x, t.calls[d]? = some x ∧ x.version = y.version ∧ x.result = y.result := by
  have one {e : Nat} {z w : Call π} (there : s.calls[e]? = some z) (version : w.version = z.version)
      (result : w.result = z.result) :
      ∃ x, (s.calls.set e w)[d]? = some x ∧ x.version = y.version ∧ x.result = y.result := by
    by_cases same : d = e
    · subst same
      cases Option.some.inj (found.symm.trans there)
      exact ⟨w,List.getElem?_set_self (List.getElem?_eq_some_iff.mp found).1,version,result⟩
    · exact ⟨y,(List.getElem?_set_ne (Ne.symm same)).trans found,rfl,rfl⟩
  cases does with
  | call => exact ⟨y,(List.getElem?_append_left (List.getElem?_eq_some_iff.mp found).1).trans found,rfl,rfl⟩
  | hits there => exact one there rfl rfl
  | misses there => exact one there rfl rfl
  | builds there => exact one there rfl rfl
  | uncached there => exact one there rfl rfl
  | gets there => exact one there rfl rfl
  | stores there => exact one there rfl rfl
  | deletesPicker there => exact one there rfl rfl
  | deletesActive there => exact one there rfl rfl
  | deletesBase there => exact one there rfl rfl
  | leaves there => exact one there rfl rfl

theorem builtStays (does : Does base s a t) (built : Built base s v p) : Built base t v p := by
  obtain ⟨c,call,cache,found,version,same⟩ := built
  obtain ⟨x,after,version',result⟩ := callStays does found
  exact ⟨c,x,cache,after,version'.trans version,result ▸ same⟩

theorem taggedStays {set : List String} (does : Does base s a t) (tagged : Tagged s v set) : Tagged t v set := by
  obtain ⟨c,call,found,version,same⟩ := tagged
  obtain ⟨x,after,version',result⟩ := callStays does found
  exact ⟨c,x,after,version'.trans version,result ▸ same⟩

theorem builtBy {cache : σ} (found : s.calls[c]? = some call) (same : p = (build base cache call.result).2) :
    Built base s call.version p := ⟨c,call,cache,found,rfl,same⟩

theorem settledGrows (does : Does base s a t) : s.settled ≤ t.settled := by
  cases does with
  | leaves => exact Nat.le_max_left _ _
  | _ => exact Nat.le_refl _

theorem goodStays (does : Does base s a t) (good : Good base s call) : Good base t call where
  since := Nat.le_trans good.since (settledGrows does)
  got v p same := ⟨(good.got v p same).1,builtStays does (good.got v p same).2⟩
  carries := good.carries

theorem goodAlong (good : Good base s call) (since : x.since = call.since) (got : x.got = call.got)
    (carries : ∀ p, x.point = .store p → ∃ cache, p = (build base cache x.result).2) : Good base s x where
  since := since ▸ good.since
  got v p same := by rw [since]; exact good.got v p (got ▸ same)
  carries := carries

theorem goodReturns (good : Good base s call) (since : x.since = call.since) (got : x.got = some (v,p))
    (late : call.since ≤ v) (built : Built base s v p) (point : x.point = .returned) : Good base s x where
  since := since ▸ good.since
  got w q same := by
    cases Option.some.inj (got.symm.trans same)
    exact ⟨since ▸ late,built⟩
  carries q here := by rw [point] at here; simp only [reduceCtorEq] at here

theorem goodStart {kind : Kind} {version : Nat} {result : Result} :
    Good base s ⟨kind,version,result,first kind result.cacheable,s.settled,none⟩ where
  since := Nat.le_refl _
  got v p same := by simp only [reduceCtorEq] at same
  carries p here := by
    cases kind <;> cases cacheable : result.cacheable <;> rw [cacheable] at here <;>
      simp only [first,reduceCtorEq] at here

theorem storeLate (new : Newest s (.store c)) (found : s.calls[c]? = some call) : s.settled ≤ call.version := by
  simpa [Newest,newest,found] using new

theorem goodStep (inv : Kept base s) (new : Newest s a) (does : Does base s a t)
    (found : t.calls[d]? = some x) : Good base t x := by
  suffices here : Good base s x from goodStays does here
  have one {e : Nat} {y z : Call π} (there : s.calls[e]? = some y) (after : (s.calls.set e z)[d]? = some x)
      (went : Good base s y → Good base s z) : Good base s x := by
    rcases setFound after with ⟨rfl,rfl⟩ | ⟨_,before⟩
    · exact went (inv.calls _ y there)
    · exact inv.calls d x before
  cases does with
  | call =>
    rw [List.getElem?_append] at found
    split at found
    · exact inv.calls d x found
    · cases List.mem_singleton.mp (List.mem_of_getElem? found)
      exact goodStart
  | hits there cached =>
    refine one there found (fun good => goodReturns good rfl rfl ?_ (inv.fresh.built _ cached) rfl)
    exact Nat.le_trans good.since inv.fresh.picker
  | builds there =>
    exact one there found (fun good => goodAlong good rfl rfl (fun p same => ⟨_,(Point.store.inj same).symm⟩))
  | uncached there plain =>
    refine one there found (fun good => goodReturns good rfl rfl ?_ (builtBy there rfl) rfl)
    simpa [Newest,newest,there,plain] using new
  | gets there here =>
    refine one there found (fun good => ?_)
    obtain ⟨cache,same⟩ := good.carries _ here
    refine goodReturns good rfl rfl ?_ (builtBy there same) rfl
    exact Nat.le_trans good.since (storeLate new there)
  | misses there | stores there | deletesPicker there | deletesActive there | deletesBase there | leaves there =>
    exact one there found (fun good => goodAlong good rfl rfl (fun p same => by simp only [reduceCtorEq] at same))

theorem activeTags (result : Result) (t : String) :
    t ∈ result.active ↔ t ≠ "" ∧ ∃ x ∈ result.instances, x.tag = t := splitTags result.instances

theorem freshStep (inv : Kept base s) (new : Newest s a) (does : Does base s a t) : Fresh base t := by
  have got (c : Nat) (call : Call π) (v : Nat) (p : Picker π) (found : t.calls[c]? = some call)
      (same : call.got = some (v,p)) : call.since ≤ v ∧ Built base t v p := (goodStep inv new does found).got v p same
  have fresh := inv.fresh
  have built (p : Picker π) (same : s.pickers.value = some p) : Built base t s.pickers.version p :=
    builtStays does (fresh.built p same)
  have tagged (set : List String) (same : s.active.value = some set) : Tagged t s.active.version set :=
    taggedStays does (fresh.tagged set same)
  have stored {c : Nat} {call : Call π} {p : Picker π} (there : s.calls[c]? = some call) (here : call.point = .store p) :
      Built base t call.version p := by
    obtain ⟨cache,same⟩ := (inv.calls c call there).carries p here
    exact builtStays does (builtBy there same)
  cases does with
  | call | hits | misses | uncached | deletesBase => exact ⟨fresh.picker,fresh.active,got,built,tagged⟩
  | @builds c call there cacheable =>
    have late : s.settled ≤ call.version := by simpa [Newest,newest,there,cacheable] using new
    refine ⟨fresh.picker,late,got,built,fun set same => ?_⟩
    cases Option.some.inj same
    have short := (List.getElem?_eq_some_iff.mp there).1
    exact ⟨c,_,List.getElem?_set_self short,rfl,fun t => activeTags call.result t⟩
  | @gets c call p there here =>
    have late : s.settled ≤ call.version := storeLate new there
    exact ⟨late,fresh.active,got,fun p same => by cases Option.some.inj same; exact stored there here,tagged⟩
  | @stores c call p there here =>
    have late : s.settled ≤ call.version := storeLate new there
    exact ⟨late,fresh.active,got,fun p same => by cases Option.some.inj same; exact stored there here,tagged⟩
  | @deletesPicker c call there =>
    have late : s.settled ≤ call.version := by simpa [Newest,newest,there] using new
    exact ⟨late,fresh.active,got,fun _ same => absurd same.symm (Option.some_ne_none _),tagged⟩
  | @deletesActive c call there =>
    have late : s.settled ≤ call.version := by simpa [Newest,newest,there] using new
    exact ⟨fresh.picker,late,got,built,fun _ same => absurd same.symm (Option.some_ne_none _)⟩
  | @leaves c call there =>
    have late : call.version ≤ s.pickers.version ∧ call.version ≤ s.active.version := by
      simpa [Newest,newest,there] using new
    exact ⟨Nat.max_le.mpr ⟨fresh.picker,late.1⟩,Nat.max_le.mpr ⟨fresh.active,late.2⟩,got,built,tagged⟩

theorem keptStep (inv : Kept base s) (new : Newest s a) (does : Does base s a t) : Kept base t :=
  ⟨freshStep inv new does,fun _ _ found => goodStep inv new does found⟩

theorem keptStart (cache : σ) : Kept base (State.init cache) := by
  have no {α : Type} {p : Prop} {c : Nat} {x : α} (found : ([] : List α)[c]? = some x) : p := by
    simp only [List.getElem?_nil,reduceCtorEq] at found
  exact ⟨⟨Nat.le_refl _,Nat.le_refl _,fun _ _ _ _ found => no found,fun _ same => absurd same.symm (Option.some_ne_none _),
    fun _ same => absurd same.symm (Option.some_ne_none _)⟩,fun _ _ found => no found⟩

theorem freshNewest (does : Does base s a t) (fresh : Fresh base t) : Newest s a := by
  cases does with
  | call | hits | misses | deletesBase => rfl
  | @builds c call there cacheable =>
    have late : s.settled ≤ call.version := fresh.active
    simpa [Newest,newest,there,cacheable] using late
  | @uncached c call there plain =>
    have short := (List.getElem?_eq_some_iff.mp there).1
    have late : call.since ≤ call.version := (fresh.got c _ _ _ (List.getElem?_set_self short) rfl).1
    simpa [Newest,newest,there,plain] using late
  | @gets c call p there | @stores c call p there | @deletesPicker c call there =>
    have late : s.settled ≤ call.version := fresh.picker
    simpa [Newest,newest,there] using late
  | @deletesActive c call there =>
    have late : s.settled ≤ call.version := fresh.active
    simpa [Newest,newest,there] using late
  | @leaves c call there =>
    have picker : max s.settled call.version ≤ s.pickers.version := fresh.picker
    have active : max s.settled call.version ≤ s.active.version := fresh.active
    have both := And.intro (Nat.le_trans (Nat.le_max_right _ _) picker) (Nat.le_trans (Nat.le_max_right _ _) active)
    simpa [Newest,newest,there] using both

theorem alongFresh (as : List Action) : ∀ s : State σ π, (∀ front back t, as = front ++ back →
    run (step base) s front = some t → Fresh base t) → Along (step base) Newest s as := by
  induction as with
  | nil => exact fun _ _ => trivial
  | cons a rest ih =>
    intro s fresh
    cases one : step base s a with
    | none => simp only [Along,one]
    | some t =>
      have here : Fresh base t := fresh [a] rest t rfl (runCons.mpr ⟨t,one,rfl⟩)
      refine (alongCons one).mpr ⟨freshNewest (stepDoes one) here,ih t (fun front back u same ok => ?_)⟩
      exact fresh (a::front) back u (congrArg (a::·) same) (runCons.mpr ⟨t,one,ok⟩)

theorem alwaysFresh (base : Base σ π) (cache : σ) (as : List Action) :
    (∀ front back t, as = front ++ back → run (step base) (State.init cache) front = some t → Fresh base t) ↔
      Along (step base) Newest (State.init cache) as := by
  refine ⟨alongFresh as _,fun along front back t same ok => ?_⟩
  subst same
  exact (runKeeps (fun inv new one => keptStep inv new (stepDoes one)) (keptStart cache) (alongAppend ok along).1 ok).fresh

def plain : Base Unit (List Instance) :=
  ⟨true,fun _ _ => (),fun _ r => ((),r.instances),fun _ _ => (),fun p _ _ => p.head?⟩

def pod (address tag : String) : Instance := ⟨address,10,if tag = "" then [] else [(tagMetadata,tag)]⟩

def before : Result := ⟨true,"ser-user",[pod "10.0.0.1:8100" ""]⟩
def after : Result := ⟨true,"ser-user",[pod "10.0.0.2:8100" "",pod "172.31.41.180:23001" "alice"]⟩

/- The first GetPicker misses. The Pod moves, alice takes the service over and Rebalance
returns; then the GetPicker builds and stores. -/
def overtaken : List Action :=
  [.call .getPicker 1 before,.load 0,.call .rebalance 2 after,.build 1,.store 1,.leave 1,.build 0,.store 0]

theorem overtakenStale : ¬ ∀ (σ π : Type) (base : Base σ π) (cache : σ) as s,
    run (step base) (State.init cache) as = some s → Fresh base s := by
  intro fresh
  have facts : (run (step plain) (State.init ()) overtaken).map (fun s => (s.settled,s.pickers.version,s.active.value)) =
      some (2,1,some []) := by decide
  obtain ⟨s,ok,here⟩ := Option.map_eq_some_iff.mp facts
  obtain ⟨settled,rest⟩ := Prod.mk.inj here
  obtain ⟨version,_⟩ := Prod.mk.inj rest
  have late := (fresh _ _ plain () overtaken s ok).picker
  rw [settled,version] at late
  exact absurd late (by decide)

end DevkitCommon.Devroute
