import DevkitCommon.Lib.Machine
import DevkitCommon.Lib.Redis

/-! Keys that calls make, with the number of the call as their value. A call holds its key while
it works; one that ends otherwise than done takes it away, but for a mishap. So a key that is
there is of a call that is at work, is done, or has met with a mishap. -/
namespace DevkitCommon.Makers
open Machine Redis

/- Where a call may be, as far as its key goes. -/
structure Stages (π : Type) where
  working : π → Bool
  done : π → Bool

section Keys
variable {κ π : Type} {st : Stages π} {keys keys' : Store κ Nat} {i : Nat} {own : Option κ} {p p' : π}
  {mishaps more : List Nat}

/- The calls by their numbers, each with its own key, if it has one. -/
abbrev Calls (κ π : Type) := Nat → Option (Option κ × π)

variable {calls calls' : Calls κ π}

def Held (st : Stages π) (mishap : Prop) (p : π) : Prop := mishap ∨ st.working p = true ∨ st.done p = true

def Made (st : Stages π) (keys : Store κ Nat) (calls : Calls κ π) (mishaps : List Nat) : Prop :=
  ∀ key e, keys key = some e → ∃ p, calls e.value = some (some key,p) ∧ Held st (e.value ∈ mishaps) p

structure Follows (st : Stages π) (mishap : Prop) (p p' : π) : Prop where
  works : st.working p = true → Held st mishap p'
  done : st.done p = true → st.done p' = true

inductive KeyStep [DecidableEq κ] (st : Stages π) (keys : Store κ Nat) (own : Option κ) (i : Nat) (mishap : Prop)
    (p p' : π) : Store κ Nat → Prop where
  | sets {key e} (mine : own = some key) (value : e.value = i) (holds : Held st mishap p') :
      KeyStep st keys own i mishap p p' (Function.update keys key (some e))
  | forgets {key} (mine : own = some key) : KeyStep st keys own i mishap p p' (del keys key)
  | goes (follows : Follows st mishap p p') : KeyStep st keys own i mishap p p' keys

theorem followsSame {mishap : Prop} : Follows st mishap p p := ⟨fun works => .inr (.inl works),fun done => done⟩

theorem followsHeld {mishap old : Prop} (follows : Follows st mishap p p') (wider : old → mishap) (held : Held st old p) :
    Held st mishap p' := by
  rcases held with before | works | done
  · exact .inl (wider before)
  · exact follows.works works
  · exact .inr (.inr (follows.done done))

theorem callsMade (made : Made st keys calls mishaps) (wider : ∀ j ∈ mishaps, j ∈ more)
    (fewer : ∀ key e, keys' key = some e → keys key = some e)
    (goes : ∀ j own p, calls j = some (own,p) → ∃ p', calls' j = some (own,p') ∧ Follows st (j ∈ more) p p') :
    Made st keys' calls' more := by
  intro key e raw
  obtain ⟨p,found,held⟩ := made key e (fewer key e raw)
  obtain ⟨p',after,follows⟩ := goes e.value (some key) p found
  exact ⟨p',after,followsHeld follows (wider e.value) held⟩

theorem foundDone {key : κ} {now : Int} {j : Nat} (made : Made st keys calls mishaps) (taken : get keys now key = some j)
    (clean : j ∉ mishaps) (idle : ∀ p, calls j = some (some key,p) → st.working p = false) :
    ∃ p, calls j = some (some key,p) ∧ st.done p = true := by
  obtain ⟨e,raw,-,rfl⟩ := getExact.mp taken
  obtain ⟨p,found,mishap | works | done⟩ := made key e raw
  · exact absurd mishap clean
  · rw [idle p found] at works
    contradiction
  · exact ⟨p,found,done⟩

variable [DecidableEq κ]

theorem keyStepMade (made : Made st keys calls mishaps) (wider : ∀ j ∈ mishaps, j ∈ more)
    (found : calls i = some (own,p)) (after : calls' i = some (own,p')) (others : ∀ j, j ≠ i → calls' j = calls j)
    (one : KeyStep st keys own i (i ∈ more) p p' keys') : Made st keys' calls' more := by
  have kept {key : κ} {e : Entry Nat} (raw : keys key = some e)
      (mine : e.value = i → own = some key → Follows st (i ∈ more) p p') :
      ∃ q, calls' e.value = some (some key,q) ∧ Held st (e.value ∈ more) q := by
    obtain ⟨q,there,held⟩ := made key e raw
    by_cases same : e.value = i
    · rw [same] at there held ⊢
      obtain ⟨rfl,rfl⟩ := Prod.mk.inj (Option.some.inj (found.symm.trans there))
      exact ⟨p',after,followsHeld (mine same rfl) (wider i) held⟩
    · exact ⟨q,(others e.value same).trans there,held.imp_left (wider e.value)⟩
  intro key e now
  cases one with
  | goes follows => exact kept now (fun _ _ => follows)
  | forgets mine =>
    obtain ⟨other,old⟩ := delKeeps now
    exact kept old (fun _ whose => absurd (Option.some.inj (whose.symm.trans mine)) other)
  | @sets name f mine value holds =>
    by_cases this : key = name
    · subst this
      rw [Function.update_self] at now
      cases Option.some.inj now
      exact ⟨p',by rw [value,after,mine],by rw [value]; exact holds⟩
    · rw [Function.update_of_ne this] at now
      exact kept now (fun _ whose => absurd (Option.some.inj (whose.symm.trans mine)) this)

/- The SETNX of a call's own key, whether or not it finds the key free. -/
theorem setNXStep {key : κ} {now ttl : Int} {mishap : Prop} (mine : own = some key) (follows : Follows st mishap p p')
    (holds : Held st mishap p') : KeyStep st keys own i mishap p p' (setNX keys now key i ttl) := by
  by_cases fails : refused ttl = true ∨ (get keys now key).isSome = true
  · rw [setNXRefused fails]
    exact .goes follows
  · rw [setNX,if_neg fails]
    exact .sets mine rfl holds

end Keys

section Lists
variable {α κ π : Type} {l : List α} {x y : α} {i : Nat} {f : α → Option κ × π}

def look (f : α → Option κ × π) (l : List α) : Calls κ π := fun j => (l[j]?).map f

theorem lookIs {j : Nat} {c : Option κ × π} : look f l j = some c ↔ ∃ x, l[j]? = some x ∧ f x = c :=
  Option.map_eq_some_iff

theorem lookAt (found : l[i]? = some x) : look f l i = some (f x) := lookIs.mpr ⟨x,found,rfl⟩

theorem lookSet (found : l[i]? = some x) : look f (l.set i y) i = some (f y) ∧
    ∀ j, j ≠ i → look f (l.set i y) j = look f l j :=
  ⟨lookAt (List.getElem?_set_self (List.getElem?_eq_some_iff.mp found).1),
    fun _ other => congrArg (Option.map f) (List.getElem?_set_ne (Ne.symm other))⟩

theorem lookConcat {j : Nat} {c : Option κ × π} (found : look f l j = some c) : look f (l ++ [x]) j = some c := by
  obtain ⟨y,there,same⟩ := lookIs.mp found
  exact lookIs.mpr ⟨y,concatStays there,same⟩

end Lists
end DevkitCommon.Makers
