import Mathlib.Logic.Function.Basic

/-! Redis keys that lapse, as the Go client writes them: what a duration becomes on the
wire, and strings and sets under a clock in milliseconds. A lapsed entry stays in the map
and no read sees it. Durations are nanoseconds. -/
namespace DevkitCommon.Redis

def second : Int := 1000000000
def millisecond : Int := 1000000

structure Entry (ν : Type) where
  value : ν
  lapses : Option Int
  deriving DecidableEq, Repr

abbrev Store (κ ν : Type) := κ → Option (Entry ν)

section Commands
variable {κ ν : Type}

def Entry.live (now : Int) (e : Entry ν) : Bool := e.lapses.all (fun t => decide (now < t))

def lookup (s : Store κ ν) (now : Int) (k : κ) : Option (Entry ν) := (s k).filter (Entry.live now)
def get (s : Store κ ν) (now : Int) (k : κ) : Option ν := (lookup s now k).map Entry.value
def members (s : Store κ (List ν)) (now : Int) (k : κ) : List ν := (get s now k).getD []

/- SET: a positive duration is sent as PX, -1ns is KEEPTTL, any other is no expiry. -/
def setLapse (now ttl : Int) (old : Option Int) : Option Int :=
  if 0 < ttl then some (now + max 1 (ttl / millisecond)) else if ttl = -1 then old else none

/- SET ... NX sends a negative duration as it is, and Redis refuses the command. -/
def refused (ttl : Int) : Bool := decide (ttl < -1)

/- EXPIRE is sent in whole seconds, less than one as one. -/
def expireSeconds (ttl : Int) : Int := if 0 < ttl ∧ ttl < second then 1 else ttl.tdiv second

variable [DecidableEq κ]

def del (s : Store κ ν) (k : κ) : Store κ ν := Function.update s k none

def set (s : Store κ ν) (now : Int) (k : κ) (v : ν) (ttl : Int) : Store κ ν :=
  Function.update s k (some ⟨v,setLapse now ttl ((lookup s now k).bind Entry.lapses)⟩)

def setNX (s : Store κ ν) (now : Int) (k : κ) (v : ν) (ttl : Int) : Store κ ν :=
  if refused ttl ∨ (get s now k).isSome then s else Function.update s k (some ⟨v,setLapse now ttl none⟩)

def expire (s : Store κ ν) (now : Int) (k : κ) (ttl : Int) : Store κ ν :=
  match lookup s now k with
  | none => s
  | some e =>
    if expireSeconds ttl ≤ 0 then del s k
    else Function.update s k (some {e with lapses := some (now + 1000*expireSeconds ttl)})

variable [DecidableEq ν]

/- The scripts that look at the value first: PEXPIRE and DEL of a key that is one's own.
The Boolean is the script's answer. -/
def expireIf (s : Store κ ν) (now : Int) (k : κ) (v : ν) (ttl : Int) : Store κ ν × Bool :=
  match lookup s now k with
  | none => (s,false)
  | some e =>
    if e.value = v then
      if ttl / millisecond ≤ 0 then (del s k,true)
      else (Function.update s k (some {e with lapses := some (now + ttl / millisecond)}),true)
    else (s,false)

def delIf (s : Store κ ν) (now : Int) (k : κ) (v : ν) : Store κ ν :=
  if get s now k = some v then del s k else s

def sadd (s : Store κ (List ν)) (now : Int) (k : κ) (x : ν) : Store κ (List ν) :=
  match lookup s now k with
  | none => Function.update s k (some ⟨[x],none⟩)
  | some e => Function.update s k (some {e with value := e.value.insert x})

def srem (s : Store κ (List ν)) (now : Int) (k : κ) (x : ν) : Store κ (List ν) :=
  match lookup s now k with
  | none => s
  | some e =>
    let rest := e.value.filter (fun y => y ≠ x)
    if rest = [] then del s k else Function.update s k (some {e with value := rest})

end Commands

section Laws
variable {κ ν : Type} {s : Store κ ν} {now later : Int} {k j : κ} {v : ν} {e : Entry ν}

def Entry.Outlasts {μ : Type} (e : Entry ν) (f : Entry μ) : Prop :=
  ∀ now, f.live now = true → e.live now = true

theorem liveBefore (h : e.live later = true) (order : now ≤ later) : e.live now = true := by
  unfold Entry.live at h ⊢
  cases lapses : e.lapses with
  | none => rfl
  | some t =>
    simp only [lapses,Option.all_some,decide_eq_true_eq] at h ⊢
    omega

theorem lookupExact : lookup s now k = some e ↔ s k = some e ∧ e.live now = true := by
  simp only [lookup,Option.filter_eq_some_iff]

theorem getExact : get s now k = some v ↔ ∃ e, s k = some e ∧ e.live now = true ∧ e.value = v := by
  simp only [get,Option.map_eq_some_iff,lookupExact,and_assoc]

theorem getLive (raw : s k = some e) : (get s now k).isSome = e.live now := by
  cases live : e.live now <;> simp [get,lookup,raw,live]

theorem getBefore (h : get s later k = some v) (order : now ≤ later) : get s now k = some v := by
  obtain ⟨e,raw,live,same⟩ := getExact.mp h
  exact getExact.mpr ⟨e,raw,liveBefore live order,same⟩

theorem getCongr {s' : Store κ ν} (same : s k = s' k) : get s now k = get s' now k := by
  simp only [get,lookup,same]

theorem getNone (raw : s k = none) : get s now k = none := by
  simp only [get,lookup,raw,Option.filter_none,Option.map_none]

theorem memMembers {s : Store κ (List ν)} :
    v ∈ members s now k ↔ ∃ e, s k = some e ∧ e.live now = true ∧ v ∈ e.value := by
  unfold members
  cases found : get s now k with
  | none =>
    simp only [Option.getD_none,List.not_mem_nil,false_iff]
    rintro ⟨e,raw,live,-⟩
    rw [getExact.mpr ⟨e,raw,live,rfl⟩] at found
    contradiction
  | some l =>
    obtain ⟨e,raw,live,rfl⟩ := getExact.mp found
    simp only [Option.getD_some]
    constructor
    · intro mem
      exact ⟨e,raw,live,mem⟩
    · rintro ⟨f,raw',-,mem⟩
      cases Option.some.inj (raw.symm.trans raw')
      exact mem

theorem setLapsePositive {ttl : Int} {old : Option Int} (positive : 0 < ttl) :
    setLapse now ttl old = some (now + max 1 (ttl / millisecond)) := if_pos positive

variable [DecidableEq κ]

@[simp] theorem delSame : del s k k = none := Function.update_self ..
@[simp] theorem delOther (other : j ≠ k) : del s k j = s j := Function.update_of_ne other ..
@[simp] theorem setSame {ttl : Int} :
    set s now k v ttl k = some ⟨v,setLapse now ttl ((lookup s now k).bind Entry.lapses)⟩ :=
  Function.update_self ..
@[simp] theorem setOther {ttl : Int} (other : j ≠ k) : set s now k v ttl j = s j :=
  Function.update_of_ne other ..

theorem delKeeps (kept : del s k j = some e) : j ≠ k ∧ s j = some e := by
  by_cases same : j = k
  · subst same
    simp only [delSame,reduceCtorEq] at kept
  · exact ⟨same,by simpa only [delOther same] using kept⟩

@[simp] theorem setNXOther {ttl : Int} (other : j ≠ k) : setNX s now k v ttl j = s j := by
  unfold setNX
  split
  · rfl
  · exact Function.update_of_ne other ..

@[simp] theorem expireOther {ttl : Int} (other : j ≠ k) : expire s now k ttl j = s j := by
  unfold expire
  cases lookup s now k with
  | none => rfl
  | some e =>
    dsimp only
    split
    · exact delOther other
    · exact Function.update_of_ne other ..

theorem expireValue {ttl : Int} (present : expire s now k ttl k = some e) :
    ∃ f, s k = some f ∧ e.value = f.value := by
  unfold expire at present
  cases found : lookup s now k with
  | none =>
    rw [found] at present
    exact ⟨e,present,rfl⟩
  | some f =>
    rw [found] at present
    dsimp only at present
    split at present
    · simp only [delSame,reduceCtorEq] at present
    · simp only [Function.update_self,Option.some.injEq] at present
      exact ⟨f,(lookupExact.mp found).1,by rw [← present]⟩

theorem setNXRefused {ttl : Int} (fails : refused ttl = true ∨ (get s now k).isSome = true) :
    setNX s now k v ttl = s := if_pos fails

theorem setNXMade {ttl : Int} (accepted : refused ttl = false) (free : get s now k = none) :
    setNX s now k v ttl = Function.update s k (some ⟨v,setLapse now ttl none⟩) :=
  if_neg (by simp only [accepted,free,Option.isSome_none,Bool.false_eq_true,or_self,not_false_eq_true])

theorem setNXTaken {ttl : Int} (raw : s k = some e) (live : e.live now = true) :
    setNX s now k v ttl = s := setNXRefused (.inr (by rw [getLive raw,live]))

section Scripts
variable [DecidableEq ν] {ttl : Int}

@[simp] theorem expireIfOther (other : j ≠ k) : (expireIf s now k v ttl).1 j = s j := by
  unfold expireIf
  cases lookup s now k with
  | none => rfl
  | some e =>
    dsimp only
    split
    · split
      · exact delOther other
      · exact Function.update_of_ne other ..
    · rfl

@[simp] theorem delIfOther (other : j ≠ k) : delIf s now k v j = s j := by
  unfold delIf
  split
  · exact delOther other
  · rfl

theorem expireIfForeign (raw : s k = some e) (foreign : e.value ≠ v) : expireIf s now k v ttl = (s,false) := by
  unfold expireIf
  cases found : lookup s now k with
  | none => rfl
  | some f =>
    cases Option.some.inj (raw.symm.trans (lookupExact.mp found).1)
    exact if_neg foreign

theorem delIfForeign (raw : s k = some e) (foreign : e.value ≠ v) : delIf s now k v = s := by
  refine if_neg (fun found => ?_)
  obtain ⟨f,there,-,same⟩ := getExact.mp found
  cases Option.some.inj (raw.symm.trans there)
  exact foreign same

theorem expireIfOwn (positive : 0 < ttl / millisecond) (raw : s k = some e) :
    expireIf s now k e.value ttl =
      if e.live now then (Function.update s k (some {e with lapses := some (now + ttl / millisecond)}),true)
      else (s,false) := by
  unfold expireIf
  cases live : e.live now with
  | true =>
    rw [lookupExact.mpr ⟨raw,live⟩]
    simp only [if_true,if_neg (Int.not_le.mpr positive)]
  | false =>
    have lapsed : lookup s now k = none := by
      simp only [lookup,raw,Option.filter_some,live,Bool.false_eq_true,if_false]
    rw [lapsed]
    rfl

theorem expireIfAnswer : (expireIf s now k v ttl).2 = decide (get s now k = some v) := by
  unfold expireIf get
  cases lookup s now k with
  | none => rfl
  | some e =>
    simp only [Option.map_some,Option.some.injEq]
    split
    · rename_i same
      simp only [same,decide_true]
      split <;> rfl
    · rename_i differs
      simp only [differs,decide_false]

theorem expireIfFrom {w : ν} (held : get (expireIf s now k v ttl).1 now j = some w) :
    get s now j = some w := by
  by_cases same : j = k
  · subst same
    unfold expireIf at held
    cases found : lookup s now j with
    | none => rwa [found] at held
    | some e =>
      rw [found] at held
      dsimp only at held
      split at held
      · split at held
        · rw [getNone delSame] at held
          contradiction
        · obtain ⟨f,raw,-,value⟩ := getExact.mp held
          simp only [Function.update_self,Option.some.injEq] at raw
          subst raw
          rw [get,found,Option.map_some,value]
      · exact held
  · rwa [getCongr (expireIfOther same)] at held

theorem delIfFrom {w : ν} (held : get (delIf s now k v) now j = some w) : get s now j = some w := by
  unfold delIf at held
  split at held
  · obtain ⟨e,kept,live,value⟩ := getExact.mp held
    exact getExact.mpr ⟨e,(delKeeps kept).2,live,value⟩
  · exact held

end Scripts

theorem setNXFrom {ttl : Int} {w : ν} (foreign : w ≠ v) (held : get (setNX s now k v ttl) now j = some w) :
    get s now j = some w := by
  by_cases same : j = k
  · subst same
    unfold setNX at held
    split at held
    · exact held
    · obtain ⟨e,raw,-,value⟩ := getExact.mp held
      simp only [Function.update_self,Option.some.injEq] at raw
      subst raw
      exact absurd value.symm foreign
  · rwa [getCongr (setNXOther same)] at held

variable [DecidableEq ν] {s : Store κ (List ν)}

@[simp] theorem saddOther (other : j ≠ k) : sadd s now k v j = s j := by
  unfold sadd
  cases lookup s now k <;> exact Function.update_of_ne other ..

@[simp] theorem sremOther (other : j ≠ k) : srem s now k v j = s j := by
  unfold srem
  cases lookup s now k with
  | none => rfl
  | some e =>
    dsimp only
    split
    · exact delOther other
    · exact Function.update_of_ne other ..

theorem saddFrom {e : Entry (List ν)} {x : ν} (present : sadd s now k v k = some e)
    (mem : x ∈ e.value) : x = v ∨ ∃ f, s k = some f ∧ x ∈ f.value := by
  unfold sadd at present
  cases found : lookup s now k with
  | none =>
    simp only [found,Function.update_self,Option.some.injEq] at present
    subst present
    exact .inl (List.mem_singleton.mp mem)
  | some f =>
    simp only [found,Function.update_self,Option.some.injEq] at present
    subst present
    rcases List.mem_insert_iff.mp mem with same | old
    · exact .inl same
    · exact .inr ⟨f,(lookupExact.mp found).1,old⟩

theorem sremFrom {e : Entry (List ν)} {x : ν} (present : srem s now k v k = some e)
    (mem : x ∈ e.value) : ∃ f, s k = some f ∧ x ∈ f.value := by
  unfold srem at present
  cases found : lookup s now k with
  | none =>
    rw [found] at present
    exact ⟨e,present,mem⟩
  | some f =>
    rw [found] at present
    dsimp only at present
    split at present
    · simp only [delSame,reduceCtorEq] at present
    · simp only [Function.update_self,Option.some.injEq] at present
      subst present
      exact ⟨f,(lookupExact.mp found).1,(List.mem_filter.mp mem).1⟩

theorem saddExpire {ttl : Int} (positive : 0 < expireSeconds ttl) :
    ∃ l, expire (sadd s now k v) now k ttl k = some ⟨l,some (now + 1000*expireSeconds ttl)⟩ ∧
      v ∈ l ∧ ∀ x ∈ members s now k, x ∈ l := by
  have notNegative : ¬ expireSeconds ttl ≤ 0 := by omega
  cases found : lookup s now k with
  | none =>
    have added : lookup (sadd s now k v) now k = some ⟨[v],none⟩ := by
      refine lookupExact.mpr ⟨?_,rfl⟩
      simp only [sadd,found,Function.update_self]
    refine ⟨[v],?_,List.mem_singleton_self v,?_⟩
    · simp only [expire,added,if_neg notNegative,Function.update_self]
    · intro x mem
      simp only [members,get,found,Option.map_none,Option.getD_none,List.not_mem_nil] at mem
  | some e =>
    have live := (lookupExact.mp found).2
    have added : lookup (sadd s now k v) now k = some {e with value := e.value.insert v} := by
      refine lookupExact.mpr ⟨?_,live⟩
      simp only [sadd,found,Function.update_self]
    refine ⟨e.value.insert v,?_,List.mem_insert_self,?_⟩
    · simp only [expire,added,if_neg notNegative,Function.update_self]
    · intro x mem
      simp only [members,get,found,Option.map_some,Option.getD_some] at mem
      exact List.mem_insert_of_mem mem

theorem sremKeeps {e : Entry (List ν)} {x : ν} (raw : s k = some e) (live : e.live now = true)
    (mem : x ∈ e.value) (other : x ≠ v) :
    ∃ f, srem s now k v k = some f ∧ f.lapses = e.lapses ∧ x ∈ f.value := by
  have kept : x ∈ e.value.filter (fun y => y ≠ v) :=
    List.mem_filter.mpr ⟨mem,by simpa using other⟩
  have nonempty : e.value.filter (fun y => y ≠ v) ≠ [] := List.ne_nil_of_mem kept
  refine ⟨{e with value := e.value.filter (fun y => y ≠ v)},?_,rfl,kept⟩
  simp only [srem,lookupExact.mpr ⟨raw,live⟩,if_neg nonempty,Function.update_self]

end Laws
end DevkitCommon.Redis
