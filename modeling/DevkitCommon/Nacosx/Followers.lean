import DevkitCommon.Nacosx.Steps
import Mathlib.Data.List.Chain
import Mathlib.Data.List.Nodup

/-! What the followers of a configuration are called with. Every content under w.mu is read
from the server while it is held, so what is read later stands later among the server's
contents; w.sum is the checksum of what each subscriber saw last. -/
namespace DevkitCommon.Nacosx
open Machine
variable {T : Type}

structure Delivered (history : List Content) (heard : List (Nat × Content)) : Prop where
  inOrder : ∀ first rest, heard = first::rest → history[first.1]? = some first.2 ∧
    List.Sublist (rest.map Prod.snd) (history.drop (first.1+1))
  changes : (heard.map Prod.snd).IsChain (· ≠ ·)

def UpToDate (s : State T) : Prop :=
  ∀ c ∈ s.w.subs, ∃ call last, s.calls[c]? = some call ∧ call.heard.getLast? = some last ∧ last.2 ∈ s.history ∧
    sum last.2 = sum s.server

def Quiet (s : State T) : Prop := s.pushes = [] ∧ s.w.mu = none ∧ s.sent = s.version

def reads : Action → Bool
  | .fetch ok => ok
  | _ => true

def Reads (_ : State T) (a : Action) : Prop := reads a = true
instance (s : State T) (a : Action) : Decidable (Reads s a) := by unfold Reads; infer_instance

structure Grows (history : List Content) (heard : List (Nat × Content)) : Prop where
  places : ∀ e ∈ heard, history[e.1]? = some e.2
  order : heard.Pairwise (fun a b => a.1 < b.1)
  changes : heard.IsChain (fun a b => sum a.2 ≠ sum b.2)

section Grows
variable {α : Type} {history : List Content} {heard : List (Nat × Content)}

theorem growsSublist {h : List α} {l : List (Nat × α)} {n : Nat} (places : ∀ e ∈ l, h[e.1]? = some e.2)
    (order : l.Pairwise (fun a b => a.1 < b.1)) (after : ∀ e ∈ l, n ≤ e.1) :
    List.Sublist (l.map Prod.snd) (h.drop n) := by
  induction l generalizing n with
  | nil => exact List.nil_sublist _
  | cons e l ih =>
    obtain ⟨later,order⟩ := List.pairwise_cons.mp order
    have tail := ih (n := e.1+1) (fun x mem => places x (List.mem_cons_of_mem _ mem)) order later
    obtain ⟨short,here⟩ := List.getElem?_eq_some_iff.mp (places e List.mem_cons_self)
    have from' : h.drop e.1 = e.2::h.drop (e.1+1) := by rw [List.drop_eq_getElem_cons short,here]
    have whole : List.Sublist (h.drop e.1) (h.drop n) := by
      have far := after e List.mem_cons_self
      have split : h.drop e.1 = (h.drop n).drop (e.1-n) := by rw [List.drop_drop,Nat.add_sub_cancel' far]
      rw [split]
      exact List.drop_sublist _ _
    rw [from'] at whole
    exact (List.Sublist.cons_cons _ tail).trans whole

theorem growsDelivered (grows : Grows history heard) : Delivered history heard where
  inOrder first rest same := by
    subst same
    obtain ⟨later,order⟩ := List.pairwise_cons.mp grows.order
    exact ⟨grows.places first List.mem_cons_self,
      growsSublist (fun e mem => grows.places e (List.mem_cons_of_mem _ mem)) order later⟩
  changes := by
    rw [List.isChain_map]
    exact grows.changes.imp (fun a b other same => other (congrArg sum same))

theorem growsNil : Grows history [] := ⟨fun _ mem => absurd mem List.not_mem_nil,.nil,.nil⟩

theorem growsOne {version : Nat} {content : Content} (place : history[version]? = some content) :
    Grows history [(version,content)] := by
  refine ⟨fun e mem => ?_,List.pairwise_singleton _ _,.singleton _⟩
  rw [List.mem_singleton.mp mem]
  exact place

theorem growsHistory (more : List Content) (grows : Grows history heard) : Grows (history ++ more) heard :=
  ⟨fun e mem => by
    have place := grows.places e mem
    exact (List.getElem?_append_left (List.getElem?_eq_some_iff.mp place).1).trans place,grows.order,grows.changes⟩

theorem growsMore {version : Nat} {content : Content} {last : Nat × Content} (grows : Grows history heard)
    (end' : heard.getLast? = some last) (place : history[version]? = some content) (late : last.1 ≤ version)
    (other : sum last.2 ≠ sum content) : Grows history (heard ++ [(version,content)]) := by
  have later : last.1 < version := by
    rcases Nat.lt_or_eq_of_le late with less | same
    · exact less
    · have here := grows.places last (List.mem_of_getLast? end')
      rw [same,place] at here
      exact absurd (congrArg sum (Option.some.inj here)).symm other
  have before : ∀ e ∈ heard, e.1 < version := by
    obtain ⟨front,rfl⟩ := List.getLast?_eq_some_iff.mp end'
    intro e mem
    rcases List.mem_append.mp mem with old | new
    · exact Nat.lt_trans ((List.pairwise_append.mp grows.order).2.2 e old last (List.mem_singleton_self _)) later
    · rwa [List.mem_singleton.mp new]
  refine ⟨fun e mem => ?_,?_,?_⟩
  · rcases List.mem_append.mp mem with old | new
    · exact grows.places e old
    · rw [List.mem_singleton.mp new]
      exact place
  · refine List.pairwise_append.mpr ⟨grows.order,List.pairwise_singleton _ _,fun e mem x new => ?_⟩
    rw [List.mem_singleton.mp new]
    exact before e mem
  · refine List.isChain_append.mpr ⟨grows.changes,.singleton _,fun x here y new => ?_⟩
    cases Option.some.inj (end'.symm.trans here)
    cases new
    exact other

end Grows

def unheard : Option Hold → List Nat
  | some ⟨_,.tell _ _ rest .next⟩ => rest
  | some ⟨_,.tell _ _ rest _⟩ => rest.tail
  | _ => []

def shown : Option Hold → Option (Nat × Content)
  | some ⟨_,.tell content version _ _⟩ | some ⟨_,.listen content version⟩ => some (version,content)
  | _ => none

inductive Hears (s : State T) (d : Nat) (x : Call T) : Prop where
  | new {watch : Bool} (last : d = s.calls.length) (start : x = Call.start watch)
  | same {y} (before : s.calls[d]? = some y) (heard : x.heard = y.heard)
      (point : x.point = .follow ∨ x.point = .inside → y.point = .follow ∨ y.point = .inside)
  | told {y caller content version rest} (before : s.calls[d]? = some y)
      (held : s.w.mu = some ⟨caller,.tell content version (d::rest) .next⟩)
      (heard : x.heard = y.heard ++ [(version,content)]) (point : x.point = y.point)
  | joined {y stage content version} (before : s.calls[d]? = some y) (held : s.w.mu = some ⟨.follow d,stage⟩)
      (stage' : stage = .listen content version ∨ stage = .tell content version [] .next)
      (heard : x.heard = [(version,content)]) (out : x.point ≠ .follow ∧ x.point ≠ .inside)

def Seen (calls : List (Call T)) (w : Watch) : Prop :=
  ∀ c ∈ w.subs, ∃ call last, calls[c]? = some call ∧ call.heard.getLast? = some last ∧
    (c ∉ unheard w.mu → sum last.2 = w.sum) ∧ (c ∈ unheard w.mu → sum last.2 ≠ w.sum ∧ ∀ e, shown w.mu = some e → last.1 ≤ e.1)

structure Synced (s : State T) : Prop where
  grows : ∀ (c : Nat) (call : Call T), s.calls[c]? = some call → Grows s.history call.heard
  apart : ∀ (c : Nat) (call : Call T), s.calls[c]? = some call → call.point = .follow ∨ call.point = .inside →
    call.heard = [] ∧ c ∉ s.w.subs
  inside : Inside s
  unique : s.w.subs.Nodup
  deaf : s.w.listening = false → s.w.subs = []
  seen : Seen s.calls s.w
  telling : ∀ e, shown s.w.mu = some e → s.history[e.1]? = some e.2 ∧ sum e.2 = s.w.sum ∧ s.read ≠ none
  rest : ∀ caller content version rest turn, s.w.mu = some ⟨caller,.tell content version rest turn⟩ →
    rest.Nodup ∧ ∀ c ∈ rest, c ∈ s.w.subs
  old : s.history ≠ []
  asks : ∀ caller content version, s.w.mu = some ⟨caller,.listen content version⟩ → s.w.listening = false
  asked : ∀ c content version rest turn, s.w.mu = some ⟨.follow c,.tell content version rest turn⟩ →
    s.w.listening = true

structure Settled (s : State T) : Prop where
  read : ∀ r, s.read = some r → (∃ content, s.history[r]? = some content ∧ sum content = s.w.sum) ∧
    (s.sent ≤ r ∨ (∃ p ∈ s.pushes, p.1 = s.sent) ∨ ∃ pushed, s.w.mu = some ⟨.push s.sent pushed,.fetch⟩)
  started : s.w.subs ≠ [] → s.read ≠ none
  sent : s.sent < s.history.length

section Step
variable {env : Env T} {s t : State T} {a : Action} {c d : Nat} {call x y : Call T}

theorem historyGrows (does : Does env s a t) : ∃ more, t.history = s.history ++ more := by
  cases does with
  | write content => exact ⟨[content],rfl⟩
  | _ => exact ⟨[],(List.append_nil _).symm⟩

theorem callsHear (does : Does env s a t) (found : t.calls[d]? = some x) : Hears s d x := by
  have same (here : s.calls[d]? = some x) : Hears s d x := .same here rfl id
  have one {e : Nat} {y z : Call T} (there : s.calls[e]? = some y) (after : (s.calls.set e z)[d]? = some x)
      (heard : z.heard = y.heard)
      (point : z.point = .follow ∨ z.point = .inside → y.point = .follow ∨ y.point = .inside) : Hears s d x := by
    rcases setFound after with ⟨rfl,rfl⟩ | ⟨_,before⟩
    · exact .same there heard point
    · exact same before
  have out {z : Call T} {p : Prop} (follow : z.point ≠ .follow) (inside : z.point ≠ .inside)
      (no : z.point = .follow ∨ z.point = .inside) : p := absurd no (not_or_intro follow inside)
  cases does with
  | write | push | done | leaves | takePush | pushed | asked | asks => exact same found
  | call watch =>
    rcases concatFrom found with before | ⟨long,start⟩
    · exact same before
    · exact .new long start
  | takeFollow there free here => exact one there found rfl (fun _ => .inl here)
  | fails held there => exact one there found rfl (out (by simp [Call.fails]) (by simp [Call.fails]))
  | listens held there =>
    rcases setFound found with ⟨rfl,rfl⟩ | ⟨_,before⟩
    · exact .joined there held (.inl rfl) rfl joinsPoint
    · exact same before
  | joins held there =>
    rcases setFound found with ⟨rfl,rfl⟩ | ⟨_,before⟩
    · exact .joined there held (.inr rfl) rfl joinsPoint
    · exact same before
  | tells ended held there =>
    rcases setFound found with ⟨rfl,rfl⟩ | ⟨_,before⟩
    · exact .told there held rfl rfl
    · exact same before
  | locks held there => exact one there found rfl id
  | changes held there => exact one there found rfl id
  | loads there => exact one there found rfl (out (by simp) (by simp))
  | panics there => exact one there found rfl (out (by simp) (by simp))
  | refuses there => exact one there found rfl (out (by simp) (by simp))
  | unfollows there => exact one there found rfl (out (by simp [Call.fails]) (by simp [Call.fails]))
  | hooks there => exact one there found rfl id

theorem growsStep (inv : Synced s) (does : Does env s a t) (here : t.calls[d]? = some x) : Grows t.history x.heard := by
  obtain ⟨more,history⟩ := historyGrows does
  rw [history]
  refine growsHistory more ?_
  cases callsHear does here with
  | new last start => rw [start]; exact growsNil
  | same before heard => rw [heard]; exact inv.grows d _ before
  | told before held heard =>
    obtain ⟨unique,subs⟩ := inv.rest _ _ _ _ _ held
    obtain ⟨y,last,there,end',_,behind⟩ := inv.seen d (subs d List.mem_cons_self)
    cases Option.some.inj (before.symm.trans there)
    have told : d ∈ unheard s.w.mu := by rw [held]; exact List.mem_cons_self
    obtain ⟨other,late⟩ := behind told
    obtain ⟨place,same,_⟩ := inv.telling (_,_) (by rw [held]; rfl)
    rw [heard]
    exact growsMore (inv.grows d _ before) end' place (late _ (by rw [held]; rfl)) (same ▸ other)
  | joined before held stage heard =>
    rw [heard]
    refine growsOne (inv.telling (_,_) ?_).1
    rw [held]
    rcases stage with rfl | rfl <;> rfl

theorem apartStep (inv : Synced s) (does : Does env s a t) (here : t.calls[d]? = some x)
    (point : x.point = .follow ∨ x.point = .inside) : x.heard = [] ∧ d ∉ t.w.subs := by
  have never (mem : d ∈ t.w.subs) : d ∈ s.w.subs := by
    rcases subsWent does mem with old | ⟨y,there,follow,inside⟩
    · exact old
    · cases Option.some.inj (here.symm.trans there)
      exact absurd point (not_or_intro follow inside)
  cases callsHear does here with
  | new last start =>
    subst start
    refine ⟨rfl,fun mem => ?_⟩
    obtain ⟨y,_,there,_⟩ := inv.seen d (never mem)
    exact absurd (List.getElem?_eq_some_iff.mp there).1 (by omega)
  | same before heard was =>
    obtain ⟨empty,out⟩ := inv.apart d _ before (was point)
    exact ⟨heard.trans empty,fun mem => out (never mem)⟩
  | told before held heard same =>
    exact absurd ((inv.rest _ _ _ _ _ held).2 d List.mem_cons_self) (inv.apart d _ before (same ▸ point)).2
  | joined before held stage heard out => exact absurd point (not_or_intro out.1 out.2)

theorem subsChange (does : Does env s a t) : t.w.subs = s.w.subs ∨
    (∃ c stage, s.w.mu = some ⟨.follow c,stage⟩ ∧ t.w.subs = s.w.subs ++ [c]) ∨ ∃ c, t.w.subs = s.w.subs.erase c := by
  cases does with
  | pushed => exact .inl appliedSubs
  | asked => exact .inl appliedSubs
  | @listens c _ _ _ held => exact .inr (.inl ⟨c,_,held,rfl⟩)
  | @joins c _ _ _ held => exact .inr (.inl ⟨c,_,held,rfl⟩)
  | @unfollows c => exact .inr (.inr ⟨c,rfl⟩)
  | @leaves c => exact .inr (.inr ⟨c,rfl⟩)
  | _ => exact .inl rfl

theorem outside (inv : Synced s) {stage : Stage} (held : s.w.mu = some ⟨.follow c,stage⟩) : c ∉ s.w.subs := by
  obtain ⟨call,there,inside⟩ := inv.inside c stage held
  exact (inv.apart c call there (.inr inside)).2

theorem uniqueStep (inv : Synced s) (does : Does env s a t) : t.w.subs.Nodup := by
  rcases subsChange does with same | ⟨c,stage,held,more⟩ | ⟨c,less⟩
  · exact same ▸ inv.unique
  · rw [more]
    refine List.Nodup.append inv.unique (List.nodup_singleton c) ?_
    exact List.disjoint_singleton.mpr (outside inv held)
  · exact less ▸ inv.unique.erase c

theorem deafStep (inv : Synced s) (does : Does env s a t) (deaf : t.w.listening = false) : t.w.subs = [] := by
  cases does with
  | pushed => exact appliedSubs.trans (inv.deaf (appliedListening.symm.trans deaf))
  | asked => exact appliedSubs.trans (inv.deaf (appliedListening.symm.trans deaf))
  | listens => exact absurd deaf Bool.noConfusion
  | joins held => exact absurd ((inv.asked _ _ _ _ _ held).symm.trans deaf) Bool.noConfusion
  | unfollows there free here => exact List.eq_nil_of_subset_nil (inv.deaf deaf ▸ List.erase_subset)
  | leaves there free here => exact List.eq_nil_of_subset_nil (inv.deaf deaf ▸ List.erase_subset)
  | _ => exact inv.deaf deaf

theorem seenCalls {calls calls' : List (Call T)} {w : Watch} (seen : Seen calls w)
    (same : ∀ (c : Nat) (y : Call T), calls[c]? = some y → ∃ x, calls'[c]? = some x ∧ x.heard = y.heard) :
    Seen calls' w := by
  intro c mem
  obtain ⟨y,last,there,end',rest⟩ := seen c mem
  obtain ⟨x,here,heard⟩ := same c y there
  exact ⟨x,last,here,heard ▸ end',rest⟩

theorem seenSet {calls : List (Call T)} {w : Watch} {y z : Call T} (seen : Seen calls w) (there : calls[c]? = some y)
    (heard : z.heard = y.heard) : Seen (calls.set c z) w := by
  refine seenCalls seen (fun d x here => ?_)
  rcases setStays (i := c) (a := z) here with ⟨rfl,after⟩ | ⟨_,after⟩
  · cases Option.some.inj (here.symm.trans there)
    exact ⟨z,after,heard⟩
  · exact ⟨x,after,rfl⟩

theorem seenWatch {calls : List (Call T)} {w v : Watch} (seen : Seen calls w) (subs : ∀ c ∈ v.subs, c ∈ w.subs)
    (unheard' : unheard v.mu = unheard w.mu) (sum' : v.sum = w.sum)
    (shown' : unheard w.mu ≠ [] → shown v.mu = shown w.mu) : Seen calls v := by
  intro c mem
  obtain ⟨y,last,there,end',sync,behind⟩ := seen c (subs c mem)
  refine ⟨y,last,there,end',fun out => sum' ▸ sync (unheard' ▸ out),fun mem => ?_⟩
  obtain ⟨other,late⟩ := behind (unheard' ▸ mem)
  exact ⟨sum' ▸ other,fun e here => late e (shown' (List.ne_nil_of_mem (unheard' ▸ mem)) ▸ here)⟩

theorem seenApplied (inv : Synced s) {read : Option Nat} (caller : Caller) (content : Content) {stage : Stage}
    (held : s.w.mu = some ⟨caller,stage⟩) (fetch : stage = .fetch) :
    Seen s.calls ({s with read := read}.applied caller content).w := by
  subst fetch
  have none' : unheard s.w.mu = [] := by rw [held]; rfl
  intro c mem
  rw [appliedSubs] at mem
  obtain ⟨y,last,there,end',sync,_⟩ := inv.seen c mem
  have same : sum last.2 = s.w.sum := sync (none' ▸ List.not_mem_nil)
  rcases appliedMu {s with read := read} caller content with ⟨old,mu⟩ | ⟨new,mu⟩
  · refine ⟨y,last,there,end',fun _ => ?_,fun mem => ?_⟩
    · rw [appliedSum]
      exact same.trans old.symm
    · rw [mu] at mem
      exact absurd mem List.not_mem_nil
  · refine ⟨y,last,there,end',fun out => ?_,fun _ => ⟨?_,fun e here => ?_⟩⟩
    · rw [mu] at out
      exact absurd mem out
    · rw [appliedSum,same]
      exact new.symm
    · rw [mu] at here
      cases here
      have place := (inv.grows c y there).places last (List.mem_of_getLast? end')
      exact Nat.le_sub_one_of_lt (List.getElem?_eq_some_iff.mp place).1

theorem seenTells (inv : Synced s) {caller : Caller} {content : Content} {version : Nat} {rest : List Nat}
    {stage : Stage} (held : s.w.mu = some ⟨caller,.tell content version (c::rest) .next⟩) (there : s.calls[c]? = some call)
    (after : unheard (some ⟨caller,stage⟩) = rest) (same : shown (some ⟨caller,stage⟩) = some (version,content)) :
    Seen (s.calls.set c {call with heard := call.heard ++ [(version,content)]}) {s.w with mu := some ⟨caller,stage⟩} := by
  obtain ⟨fresh,_⟩ := List.nodup_cons.mp (inv.rest _ _ _ _ _ held).1
  have all : unheard s.w.mu = c::rest := by rw [held]; rfl
  have here : shown s.w.mu = some (version,content) := by rw [held]; rfl
  intro d mem
  obtain ⟨y,last,before,end',sync,behind⟩ := inv.seen d mem
  rcases setStays (i := c) (a := {call with heard := call.heard ++ [(version,content)]}) before with
    ⟨rfl,now⟩ | ⟨other,now⟩
  · refine ⟨_,(version,content),now,List.getLast?_concat,fun _ => (inv.telling _ here).2.1,fun mem => ?_⟩
    rw [after] at mem
    exact absurd mem fresh
  · refine ⟨y,last,now,end',fun out => sync (fun mem => ?_),fun mem => ?_⟩
    · rw [all] at mem
      rw [after] at out
      exact out ((List.mem_cons.mp mem).resolve_left other)
    · rw [after] at mem
      obtain ⟨no,late⟩ := behind (all ▸ List.mem_cons_of_mem _ mem)
      exact ⟨no,fun e shows => late e (here.trans (same.symm.trans shows))⟩

theorem seenJoins (inv : Synced s) {stage : Stage} {content : Content} {version : Nat} {listening : Bool}
    (held : s.w.mu = some ⟨.follow c,stage⟩) (there : s.calls[c]? = some call)
    (stage' : stage = .listen content version ∨ stage = .tell content version [] .next) :
    Seen (s.calls.set c (call.joins content version))
      {s.w with listening := listening,subs := s.w.subs ++ [c],mu := none} := by
  have quiet : unheard s.w.mu = [] := by rw [held]; rcases stage' with rfl | rfl <;> rfl
  have here : shown s.w.mu = some (version,content) := by rw [held]; rcases stage' with rfl | rfl <;> rfl
  have short := (List.getElem?_eq_some_iff.mp there).1
  intro d mem
  rcases List.mem_append.mp mem with old | new
  · obtain ⟨y,last,before,end',sync,_⟩ := inv.seen d old
    have other : d ≠ c := fun same => outside inv held (same ▸ old)
    exact ⟨y,last,(List.getElem?_set_ne other.symm).trans before,end',fun _ => sync (quiet ▸ List.not_mem_nil),
      fun mem => absurd mem List.not_mem_nil⟩
  · obtain rfl := List.mem_singleton.mp new
    exact ⟨_,(version,content),List.getElem?_set_self short,rfl,fun _ => (inv.telling _ here).2.1,
      fun mem => absurd mem List.not_mem_nil⟩

theorem seenStep (inv : Synced s) (does : Does env s a t) : Seen t.calls t.w := by
  have along (mu : Option Hold) (before : unheard s.w.mu = []) (after : unheard mu = []) :
      Seen s.calls {s.w with mu := mu} :=
    seenWatch inv.seen (fun _ mem => mem) (after.trans before.symm) rfl (fun some => absurd before some)
  cases does with
  | write | push => exact inv.seen
  | call watch => exact seenCalls inv.seen (fun c y here => ⟨y,concatStays here,rfl⟩)
  | takePush there free => exact along _ (by rw [free]; rfl) rfl
  | takeFollow there free => exact seenSet (along _ (by rw [free]; rfl) rfl) there rfl
  | pushed ok held => exact seenApplied inv _ _ held rfl
  | asked held => exact seenApplied inv _ _ held rfl
  | asks held there deaf =>
    intro c mem
    have none' : s.w.subs = [] := inv.deaf deaf
    exact absurd (none' ▸ mem) List.not_mem_nil
  | fails held there early =>
    refine seenSet (along none ?_ rfl) there rfl
    rw [held]
    rcases early with rfl | ⟨_,_,rfl⟩ <;> rfl
  | listens held there => exact seenJoins inv held there (.inl rfl)
  | joins held there => exact seenJoins inv held there (.inr rfl)
  | @tells _ _ call _ _ _ stage ended held there after =>
    refine seenTells inv held there ?_ ?_
    · rw [after]
      cases call.watch <;> rfl
    · rw [after]
      cases call.watch <;> rfl
  | locks held there =>
    refine seenSet (seenWatch inv.seen (fun _ mem => mem) ?_ rfl (fun _ => ?_)) there rfl
    · rw [held]; rfl
    · rw [held]; rfl
  | changes held there =>
    refine seenSet (seenWatch inv.seen (fun _ mem => mem) ?_ rfl (fun _ => ?_)) there rfl
    · rw [held]; rfl
    · rw [held]; rfl
  | done held => exact along none (by rw [held]; rfl) rfl
  | loads there => exact seenSet inv.seen there rfl
  | panics there => exact seenSet inv.seen there rfl
  | refuses there => exact seenSet inv.seen there rfl
  | unfollows there => exact seenSet (seenWatch inv.seen (fun _ => List.mem_of_mem_erase) rfl rfl (fun _ => rfl)) there rfl
  | leaves there => exact seenWatch inv.seen (fun _ => List.mem_of_mem_erase) rfl rfl (fun _ => rfl)
  | hooks there => exact seenSet inv.seen there rfl

theorem serverPlace (old : s.history ≠ []) : s.history[s.version]? = some s.server := by
  rw [State.version,State.server,← List.getLast?_eq_getElem?,List.getLastD_eq_getLast?,List.getLast?_eq_some_getLast old]
  rfl

theorem shownWent (good : Reads s a) (does : Does env s a t) {e : Nat × Content} (shows : shown t.w.mu = some e) :
    e = (s.version,s.server) ∧ t.history = s.history ∧ t.w.sum = sum s.server ∧ t.read = some s.version ∨
      shown s.w.mu = some e ∧ t.w.sum = s.w.sum ∧ t.read = s.read := by
  cases does with
  | write | push | call | loads | panics | refuses | hooks | unfollows | leaves => exact .inr ⟨shows,rfl,rfl⟩
  | takePush | takeFollow | fails | listens | done | joins => exact absurd shows.symm (Option.some_ne_none _)
  | pushed ok held =>
    obtain rfl : ok = true := good
    refine .inl ⟨?_,rfl,appliedSum,rfl⟩
    rcases appliedMu _ _ _ with ⟨_,mu⟩ | ⟨_,mu⟩ <;> rw [mu] at shows <;> exact (Option.some.inj shows).symm
  | asked held =>
    refine .inl ⟨?_,rfl,appliedSum,rfl⟩
    rcases appliedMu _ _ _ with ⟨_,mu⟩ | ⟨_,mu⟩ <;> rw [mu] at shows <;> exact (Option.some.inj shows).symm
  | asks held => exact .inl ⟨(Option.some.inj shows).symm,rfl,rfl,rfl⟩
  | @tells _ _ call _ _ _ _ ended held there after =>
    refine .inr ⟨?_,rfl,rfl⟩
    rw [held,← shows,after]
    show some _ = shown (some ⟨_,if call.watch then _ else _⟩)
    cases call.watch <;> rfl
  | locks held => exact .inr ⟨by rw [held]; exact shows,rfl,rfl⟩
  | changes held => exact .inr ⟨by rw [held]; exact shows,rfl,rfl⟩

theorem tellingStep (inv : Synced s) (good : Reads s a) (does : Does env s a t) {e : Nat × Content}
    (shows : shown t.w.mu = some e) : t.history[e.1]? = some e.2 ∧ sum e.2 = t.w.sum ∧ t.read ≠ none := by
  rcases shownWent good does shows with ⟨rfl,history,same,read⟩ | ⟨before,same,read⟩
  · rw [history,same,read]
    exact ⟨serverPlace inv.old,rfl,Option.some_ne_none _⟩
  · obtain ⟨place,sum',some⟩ := inv.telling e before
    obtain ⟨more,history⟩ := historyGrows does
    rw [history,same,read]
    exact ⟨(List.getElem?_append_left (List.getElem?_eq_some_iff.mp place).1).trans place,sum',some⟩

theorem restStep (inv : Synced s) (does : Does env s a t) {caller : Caller} {content : Content} {version : Nat}
    {rest : List Nat} {turn : Turn} (held : t.w.mu = some ⟨caller,.tell content version rest turn⟩) :
    rest.Nodup ∧ ∀ c ∈ rest, c ∈ t.w.subs := by
  cases does with
  | write | push | call | loads | panics | refuses | hooks => exact inv.rest _ _ _ _ _ held
  | takePush | takeFollow | asks | fails | listens | done | joins =>
    simp only [State.hold,State.setCall,Option.some.injEq,Hold.mk.injEq,reduceCtorEq,and_false] at held
  | unfollows there free => exact absurd (free.symm.trans held).symm (Option.some_ne_none _)
  | leaves there free => exact absurd (free.symm.trans held).symm (Option.some_ne_none _)
  | pushed ok before =>
    rw [appliedSubs]
    rcases appliedMu _ _ _ with ⟨_,mu⟩ | ⟨_,mu⟩ <;> cases mu.symm.trans held
    · exact ⟨.nil,fun _ mem => absurd mem List.not_mem_nil⟩
    · exact ⟨inv.unique,fun _ mem => mem⟩
  | asked before =>
    rw [appliedSubs]
    rcases appliedMu _ _ _ with ⟨_,mu⟩ | ⟨_,mu⟩ <;> cases mu.symm.trans held
    · exact ⟨.nil,fun _ mem => absurd mem List.not_mem_nil⟩
    · exact ⟨inv.unique,fun _ mem => mem⟩
  | tells ended before there after =>
    cases held
    split at after <;> cases after
    · exact inv.rest _ _ _ _ _ before
    · obtain ⟨unique,subs⟩ := inv.rest _ _ _ _ _ before
      exact ⟨(List.nodup_cons.mp unique).2,fun c mem => subs c (List.mem_cons_of_mem _ mem)⟩
  | locks before => cases held; exact inv.rest _ _ _ _ _ before
  | changes before =>
    cases held
    obtain ⟨unique,subs⟩ := inv.rest _ _ _ _ _ before
    exact ⟨(List.nodup_cons.mp unique).2,fun c mem => subs c (List.mem_cons_of_mem _ mem)⟩

theorem asksStep (inv : Synced s) (does : Does env s a t) {caller : Caller} {content : Content} {version : Nat}
    (held : t.w.mu = some ⟨caller,.listen content version⟩) : t.w.listening = false := by
  cases does with
  | write | push | call | loads | panics | refuses | hooks | unfollows | leaves => exact inv.asks _ _ _ held
  | asks before there deaf => exact deaf
  | pushed ok before => rcases appliedMu _ _ _ with ⟨_,mu⟩ | ⟨_,mu⟩ <;> cases mu.symm.trans held
  | asked before => rcases appliedMu _ _ _ with ⟨_,mu⟩ | ⟨_,mu⟩ <;> cases mu.symm.trans held
  | tells ended before there after =>
    cases held
    split at after <;> cases after
  | _ => simp only [State.hold,State.setCall,Option.some.injEq,Hold.mk.injEq,reduceCtorEq,and_false] at held

theorem askedStep (inv : Synced s) (does : Does env s a t) {content : Content} {version : Nat} {rest : List Nat}
    {turn : Turn} (held : t.w.mu = some ⟨.follow c,.tell content version rest turn⟩) : t.w.listening = true := by
  cases does with
  | write | push | call | loads | panics | refuses | hooks | unfollows | leaves => exact inv.asked _ _ _ _ _ held
  | pushed ok before => rcases appliedMu _ _ _ with ⟨_,mu⟩ | ⟨_,mu⟩ <;> cases mu.symm.trans held
  | asked before there listening => exact appliedListening.trans listening
  | tells ended before => cases held; exact inv.asked _ _ _ _ _ before
  | locks before => cases held; exact inv.asked _ _ _ _ _ before
  | changes before => cases held; exact inv.asked _ _ _ _ _ before
  | _ => simp only [State.hold,State.setCall,Option.some.injEq,Hold.mk.injEq,reduceCtorEq,and_false] at held

theorem syncedStep (inv : Synced s) (good : Reads s a) (does : Does env s a t) : Synced t where
  grows _ _ here := growsStep inv does here
  apart _ _ here point := apartStep inv does here point
  inside := insideStep inv.inside does
  unique := uniqueStep inv does
  deaf := deafStep inv does
  seen := seenStep inv does
  telling _ shows := tellingStep inv good does shows
  rest _ _ _ _ _ held := restStep inv does held
  old := by
    obtain ⟨more,history⟩ := historyGrows does
    rw [history]
    exact List.append_ne_nil_of_left_ne_nil inv.old more
  asks _ _ _ held := asksStep inv does held
  asked _ _ _ _ _ held := askedStep inv does held

theorem readNow (settled : Settled s) (old : s.history ≠ []) {r : Nat} (read : some s.version = some r) :
    (∃ content, s.history[r]? = some content ∧ sum content = sum s.server) ∧ s.sent ≤ r := by
  obtain rfl := Option.some.inj read
  exact ⟨⟨s.server,serverPlace old,rfl⟩,Nat.le_sub_one_of_lt settled.sent⟩

theorem readStep (inv : Synced s) (settled : Settled s) (good : Reads s a) (does : Does env s a t) {r : Nat}
    (read : t.read = some r) : (∃ content, t.history[r]? = some content ∧ sum content = t.w.sum) ∧
      (t.sent ≤ r ∨ (∃ p ∈ t.pushes, p.1 = t.sent) ∨ ∃ pushed, t.w.mu = some ⟨.push t.sent pushed,.fetch⟩) := by
  have along {stage : Stage} {caller : Caller} (before : s.read = some r) (held : s.w.mu = some ⟨caller,stage⟩)
      (past : stage ≠ .fetch ∨ ∃ c, caller = .follow c) :
      (∃ content, s.history[r]? = some content ∧ sum content = s.w.sum) ∧
        (s.sent ≤ r ∨ (∃ p ∈ s.pushes, p.1 = s.sent)) := by
    obtain ⟨place,upTo | waits | ⟨pushed,fetch⟩⟩ := settled.read r before
    · exact ⟨place,.inl upTo⟩
    · exact ⟨place,.inr waits⟩
    · cases held.symm.trans fetch
      rcases past with past | ⟨_,other⟩
      · exact absurd rfl past
      · exact Caller.noConfusion other
  have free (before : s.read = some r) (none' : s.w.mu = none) :
      (∃ content, s.history[r]? = some content ∧ sum content = s.w.sum) ∧
        (s.sent ≤ r ∨ (∃ p ∈ s.pushes, p.1 = s.sent)) := by
    obtain ⟨place,upTo | waits | ⟨pushed,fetch⟩⟩ := settled.read r before
    · exact ⟨place,.inl upTo⟩
    · exact ⟨place,.inr waits⟩
    · exact absurd (none'.symm.trans fetch).symm (Option.some_ne_none _)
  cases does with
  | call | loads | panics | refuses | hooks => exact settled.read r read
  | write content =>
    obtain ⟨⟨x,place,same⟩,rest⟩ := settled.read r read
    exact ⟨⟨x,(List.getElem?_append_left (List.getElem?_eq_some_iff.mp place).1).trans place,same⟩,rest⟩
  | push pushed => exact ⟨(settled.read r read).1,.inr (.inl ⟨_,List.mem_append_right _ (List.mem_singleton_self _),rfl⟩)⟩
  | @takePush i p there none' =>
    obtain ⟨place,upTo | ⟨q,mem,same⟩⟩ := free read none'
    · exact ⟨place,.inl upTo⟩
    · obtain ⟨j,here⟩ := List.mem_iff_getElem?.mp mem
      by_cases taken : j = i
      · subst taken
        cases Option.some.inj (there.symm.trans here)
        exact ⟨place,.inr (.inr ⟨p.2,by rw [← same]; rfl⟩)⟩
      · exact ⟨place,.inr (.inl ⟨q,List.mem_eraseIdx_iff_getElem?.mpr ⟨j,taken,here⟩,same⟩)⟩
  | takeFollow there none' => exact ⟨(free read none').1,(free read none').2.imp id .inl⟩
  | pushed ok held =>
    obtain rfl : ok = true := good
    obtain ⟨place,upTo⟩ := readNow settled inv.old read
    exact ⟨by rw [appliedSum]; exact place,.inl upTo⟩
  | asked held =>
    obtain ⟨place,upTo⟩ := readNow settled inv.old read
    exact ⟨by rw [appliedSum]; exact place,.inl upTo⟩
  | asks held =>
    obtain ⟨place,upTo⟩ := readNow settled inv.old read
    exact ⟨place,.inl upTo⟩
  | fails held => exact ⟨(along read held (.inr ⟨_,rfl⟩)).1,(along read held (.inr ⟨_,rfl⟩)).2.imp id .inl⟩
  | listens held => exact ⟨(along read held (.inr ⟨_,rfl⟩)).1,(along read held (.inr ⟨_,rfl⟩)).2.imp id .inl⟩
  | joins held => exact ⟨(along read held (.inr ⟨_,rfl⟩)).1,(along read held (.inr ⟨_,rfl⟩)).2.imp id .inl⟩
  | tells _ held => exact ⟨(along read held (.inl Stage.noConfusion)).1,(along read held (.inl Stage.noConfusion)).2.imp id .inl⟩
  | locks held => exact ⟨(along read held (.inl Stage.noConfusion)).1,(along read held (.inl Stage.noConfusion)).2.imp id .inl⟩
  | changes held => exact ⟨(along read held (.inl Stage.noConfusion)).1,(along read held (.inl Stage.noConfusion)).2.imp id .inl⟩
  | done held => exact ⟨(along read held (.inl Stage.noConfusion)).1,(along read held (.inl Stage.noConfusion)).2.imp id .inl⟩
  | unfollows there none' => exact ⟨(free read none').1,(free read none').2.imp id .inl⟩
  | leaves there none' => exact ⟨(free read none').1,(free read none').2.imp id .inl⟩

theorem readStays (good : Reads s a) (does : Does env s a t) (some' : s.read ≠ none) : t.read ≠ none := by
  cases does with
  | pushed ok =>
    obtain rfl : ok = true := good
    exact Option.some_ne_none _
  | asked => exact Option.some_ne_none _
  | asks => exact Option.some_ne_none _
  | _ => exact some'

theorem startedStep (inv : Synced s) (settled : Settled s) (good : Reads s a) (does : Does env s a t)
    (some' : t.w.subs ≠ []) : t.read ≠ none := by
  have before (subs : s.w.subs ≠ []) : t.read ≠ none := readStays good does (settled.started subs)
  cases does with
  | listens held => exact (inv.telling _ (by rw [held]; rfl)).2.2
  | joins held => exact (inv.telling _ (by rw [held]; rfl)).2.2
  | pushed => exact before (appliedSubs ▸ some')
  | asked => exact before (appliedSubs ▸ some')
  | unfollows => exact before (fun none' => some' (by show s.w.subs.erase _ = []; rw [none']; rfl))
  | leaves => exact before (fun none' => some' (by show s.w.subs.erase _ = []; rw [none']; rfl))
  | _ => exact before some'

theorem settledStep (inv : Synced s) (settled : Settled s) (good : Reads s a) (does : Does env s a t) : Settled t where
  read _ read := readStep inv settled good does read
  started some' := startedStep inv settled good does some'
  sent := by
    cases does with
    | write content => exact Nat.lt_of_lt_of_le settled.sent (by simp)
    | push => exact Nat.sub_one_lt_of_lt settled.sent
    | _ => exact settled.sent

theorem syncedStart (start : Content) : Synced (State.init (T := T) start) ∧ Settled (State.init (T := T) start) := by
  have no {p : Prop} {α : Type} {x : α} (held : (none : Option α) = some x) : p := absurd held.symm (Option.some_ne_none _)
  have nil {p : Prop} {c : Nat} {call : Call T} (here : (State.init (T := T) start).calls[c]? = some call) : p := no here
  exact ⟨⟨fun _ _ here => nil here,fun _ _ here => nil here,insideStart start,.nil,fun _ => rfl,
    fun _ mem => absurd mem List.not_mem_nil,fun _ shows => no shows,fun _ _ _ _ _ held => no held,
    List.cons_ne_nil _ _,fun _ _ _ held => no held,fun _ _ _ _ _ held => no held⟩,
    ⟨fun _ read => no read,fun some' => absurd rfl some',Nat.zero_lt_one⟩⟩

end Step

theorem followersInOrder (env : Env T) (start : Content) (as : List Action) (s : State T)
    (good : Along (step env) Reads (State.init start) as)
    (ok : run (step env) (State.init start) as = some s) :
    (∀ (c : Nat) (call : Call T), s.calls[c]? = some call → Delivered s.history call.heard) ∧
      (Quiet s → UpToDate s) := by
  have keep {s t : State T} {a : Action} (inv : Synced s ∧ Settled s) (good : Reads s a) (one : step env s a = some t) :
      Synced t ∧ Settled t := ⟨syncedStep inv.1 good (stepDoes one),settledStep inv.1 inv.2 good (stepDoes one)⟩
  obtain ⟨synced,settled⟩ := runKeeps keep (syncedStart start) good ok
  refine ⟨fun c call here => growsDelivered (synced.grows c call here),?_⟩
  rintro ⟨none',free,after⟩ c mem
  obtain ⟨call,last,there,end',sync,_⟩ := synced.seen c mem
  have same : sum last.2 = s.w.sum := sync (by rw [free]; exact List.not_mem_nil)
  have place := (synced.grows c call there).places last (List.mem_of_getLast? end')
  refine ⟨call,last,there,end',List.mem_of_getElem? place,same.trans ?_⟩
  obtain ⟨r,read⟩ := Option.ne_none_iff_exists'.mp (settled.started (List.ne_nil_of_mem mem))
  obtain ⟨⟨content,here,equal⟩,upTo | ⟨p,waits,_⟩ | ⟨pushed,held⟩⟩ := settled.read r read
  · have short := (List.getElem?_eq_some_iff.mp here).1
    have newest : r = s.version := by
      unfold State.version at after ⊢
      omega
    subst newest
    rw [serverPlace synced.old] at here
    rw [← equal,Option.some.inj here]
  · rw [none'] at waits
    exact absurd waits List.not_mem_nil
  · exact absurd (free.symm.trans held).symm (Option.some_ne_none _)

def joined : List Action :=
  [.onChange,.takeFollow 0,.fetch true,.listen true,.write [98],.onChange,.takeFollow 1,.fetch true,.tell .panics,.done,
    .push [98],.write [99],.push [99],.takePush 1,.fetch true,.tell .returns,.tell .returns,.done,.takePush 0,.fetch true,
    .done]

set_option maxRecDepth 8000 in
theorem joinedInOrder : ∃ s, run (step raw) (State.init [97]) joined = some s ∧
    s.calls.map Call.heard = [[(0,[97]),(1,[98]),(2,[99])],[(1,[98]),(2,[99])]] ∧
    (∀ (c : Nat) (call : Call Content), s.calls[c]? = some call → Delivered s.history call.heard) ∧
    (Quiet s → UpToDate s) := by
  have facts : (run (step raw) (State.init [97]) joined).map (fun s => s.calls.map Call.heard) =
      some [[(0,[97]),(1,[98]),(2,[99])],[(1,[98]),(2,[99])]] := by decide
  obtain ⟨s,ok,heard⟩ := Option.map_eq_some_iff.mp facts
  exact ⟨s,ok,heard,followersInOrder raw [97] joined s (by decide) ok⟩

def before : Content :=
  [0x4d,0xc9,0x68,0xff,0x0e,0xe3,0x5c,0x20,0x95,0x72,0xd4,0x77,0x7b,0x72,0x15,0x87,
   0xd3,0x6f,0xa7,0xb2,0x1b,0xdc,0x56,0xb7,0x4a,0x3d,0xc0,0x78,0x3e,0x7b,0x95,0x18,
   0xaf,0xbf,0xa2,0x00,0xa8,0x28,0x4b,0xf3,0x6e,0x8e,0x4b,0x55,0xb3,0x5f,0x42,0x75,
   0x93,0xd8,0x49,0x67,0x6d,0xa0,0xd1,0x55,0x5d,0x83,0x60,0xfb,0x5f,0x07,0xfe,0xa2]

def after : Content := (before.set 35 0x02).set 55 0xd5

def collided : List Action :=
  [.onChange,.takeFollow 0,.fetch true,.listen true,.write after,.push after,.takePush 0,.fetch true,.done]

set_option maxRecDepth 8000 in
theorem collidedLost : ¬ ∀ (T : Type) (env : Env T) start as s, Along (step env) Reads (State.init start) as →
    run (step env) (State.init start) as = some s →
    (∀ (c : Nat) (call : Call T), s.calls[c]? = some call → Delivered s.history call.heard) ∧
      (Quiet s → ∀ c ∈ s.w.subs, ∃ call last, s.calls[c]? = some call ∧ call.heard.getLast? = some last ∧
        last.2 = s.server) := by
  intro always
  have states : (run (step raw) (State.init before) collided).map (fun s => (s.pushes,s.w.mu,s.sent,s.w.subs)) =
      some ([],none,1,[0]) := by decide
  have contents : (run (step raw) (State.init before) collided).map (fun s => (s.history,s.calls.map Call.heard)) =
      some ([before,after],[[(0,before)]]) := by decide
  obtain ⟨s,ok,state⟩ := Option.map_eq_some_iff.mp states
  rw [ok,Option.map_some] at contents
  obtain ⟨history,heard⟩ := Prod.mk.inj (Option.some.inj contents)
  obtain ⟨pushes,rest⟩ := Prod.mk.inj state
  obtain ⟨free,rest⟩ := Prod.mk.inj rest
  obtain ⟨sent,subs⟩ := Prod.mk.inj rest
  have quiet : Quiet s := ⟨pushes,free,by rw [sent,State.version,history]; rfl⟩
  obtain ⟨call,last,there,end',same⟩ := (always _ raw before collided s (by decide) ok).2 quiet 0
    (by rw [subs]; exact List.mem_singleton_self _)
  have first := congrArg (fun l => l[0]?) heard
  simp only [List.getElem?_map,there,Option.map_some,List.getElem?_cons_zero,Option.some.injEq] at first
  rw [first] at end'
  cases end'
  rw [State.server,history] at same
  have differ : before ≠ after := by decide
  exact differ same

end DevkitCommon.Nacosx
