import Mathlib.Data.List.Infix
import Mathlib.Data.List.Pairwise

/-! Many keys of a text replaced in one pass: what a key is replaced by is not looked at
again. -/
namespace DevkitCommon.Replacer

variable {α : Type} [DecidableEq α] {pairs : List (List α × List α)}

def replaceFrom (pairs : List (List α × List α)) : Nat → List α → List α
  | _, [] => []
  | skip+1, _::rest => replaceFrom pairs skip rest
  | 0, c::rest => match pairs.find? (fun p => p.1.isPrefixOf (c::rest)) with
    | some p => p.2 ++ replaceFrom pairs (p.1.length-1) rest
    | none => c::replaceFrom pairs 0 rest

def replace (pairs : List (List α × List α)) (t : List α) : List α := replaceFrom pairs 0 t

inductive Replaced (pairs : List (List α × List α)) : List α → List α → Prop
  | done : Replaced pairs [] []
  | key {k v rest out : List α} (listed : (k,v) ∈ pairs) (more : Replaced pairs rest out) :
    Replaced pairs (k ++ rest) (v ++ out)
  | other {c : α} {rest out : List α} (plain : ∀ p ∈ pairs, ¬ p.1 <+: c::rest) (more : Replaced pairs rest out) :
    Replaced pairs (c::rest) (c::out)

structure Keys (keys : List (List α)) : Prop where
  nonempty : [] ∉ keys
  apart : keys.Pairwise (fun a b => ¬ a <+: b ∧ ¬ b <+: a)

theorem foundStands {t : List α} {p : List α × List α} (look : pairs.find? (fun p => p.1.isPrefixOf t) = some p) :
    p ∈ pairs ∧ p.1 <+: t := by
  have here := List.find?_some look
  exact ⟨List.mem_of_find?_eq_some look,List.isPrefixOf_iff_prefix.mp here⟩

omit [DecidableEq α] in
theorem keyOnly (keys : Keys (pairs.map Prod.fst)) {p q : List α × List α} (first : p ∈ pairs) (second : q ∈ pairs)
    (within : p.1 <+: q.1 ∨ q.1 <+: p.1) : p = q := by
  by_contra different
  have apart := List.pairwise_map.mp keys.apart
  have turned : Std.Symm (fun a b : List α × List α => ¬ a.1 <+: b.1 ∧ ¬ b.1 <+: a.1) := ⟨fun _ _ both => both.symm⟩
  have neither := apart.forall first second different
  exact within.elim neither.1 neither.2

omit [DecidableEq α] in
theorem keySome (keys : Keys (pairs.map Prod.fst)) {p : List α × List α} (listed : p ∈ pairs) : p.1 ≠ [] :=
  fun empty => keys.nonempty (empty ▸ List.mem_map_of_mem listed)

theorem skipFrom (n : Nat) (t : List α) : replaceFrom pairs n t = replaceFrom pairs 0 (t.drop n) := by
  induction t generalizing n with
  | nil => rw [List.drop_nil,replaceFrom,replaceFrom]
  | cons c rest ih =>
    cases n with
    | zero => rfl
    | succ n => rw [replaceFrom,List.drop_succ_cons,ih]

theorem replaceKey (keys : Keys (pairs.map Prod.fst)) {k v : List α} (listed : (k,v) ∈ pairs) (rest : List α) :
    replace pairs (k ++ rest) = v ++ replace pairs rest := by
  cases k with
  | nil => exact absurd rfl (keySome keys listed)
  | cons c k =>
    have here : (c::k).isPrefixOf (c::(k ++ rest)) = true := List.isPrefixOf_iff_prefix.mpr (List.prefix_append (c::k) rest)
    have found : pairs.find? (fun p => p.1.isPrefixOf (c::(k ++ rest))) = some (c::k,v) := by
      cases look : pairs.find? (fun p => p.1.isPrefixOf (c::(k ++ rest))) with
      | none => exact absurd here (List.find?_eq_none.mp look _ listed)
      | some p =>
        obtain ⟨mem,stands⟩ := foundStands look
        have either := List.prefix_or_prefix_of_prefix stands (List.prefix_append (c::k) rest)
        rw [keyOnly keys mem listed either]
    rw [replace,List.cons_append,replaceFrom,found]
    show v ++ replaceFrom pairs k.length (k ++ rest) = v ++ replace pairs rest
    rw [skipFrom,List.drop_left,replace]

theorem replaceOther {c : α} {rest : List α} (plain : ∀ p ∈ pairs, ¬ p.1 <+: c::rest) :
    replace pairs (c::rest) = c::replace pairs rest := by
  have none : pairs.find? (fun p => p.1.isPrefixOf (c::rest)) = none :=
    List.find?_eq_none.mpr (fun p mem here => plain p mem (List.isPrefixOf_iff_prefix.mp here))
  rw [replace,replaceFrom,none,replace]

theorem replacedFrom (keys : Keys (pairs.map Prod.fst)) (n : Nat) (t : List α) :
    Replaced pairs (t.drop n) (replaceFrom pairs n t) := by
  induction t generalizing n with
  | nil =>
    rw [List.drop_nil,replaceFrom]
    exact .done
  | cons c rest ih =>
    cases n with
    | succ n => exact ih n
    | zero =>
      rw [List.drop_zero,replaceFrom]
      cases look : pairs.find? (fun p => p.1.isPrefixOf (c::rest)) with
      | none =>
        have plain : ∀ p ∈ pairs, ¬ p.1 <+: c::rest :=
          fun p mem here => List.find?_eq_none.mp look p mem (List.isPrefixOf_iff_prefix.mpr here)
        exact .other plain (ih 0)
      | some p =>
        obtain ⟨k,v⟩ := p
        obtain ⟨listed,after,whole⟩ := foundStands look
        cases k with
        | nil => exact absurd rfl (keySome keys listed)
        | cons d k =>
          rw [List.cons_append] at whole
          obtain ⟨rfl,rfl⟩ := List.cons.inj whole
          have later := ih k.length
          rw [List.drop_left] at later
          exact .key listed later

theorem replacedIff (keys : Keys (pairs.map Prod.fst)) {t out : List α} : Replaced pairs t out ↔ replace pairs t = out := by
  constructor
  · intro replaced
    induction replaced with
    | done => rfl
    | key listed more ih => rw [replaceKey keys listed,ih]
    | other plain more ih => rw [replaceOther plain,ih]
  · rintro rfl
    exact replacedFrom keys 0 t

section Absent
variable {front back : List (List α × List α)} {k v : List α}

theorem findAbsent {t : List α} (absent : ¬ k <+: t) :
    (front ++ (k,v)::back).find? (fun p => p.1.isPrefixOf t) = (front ++ back).find? (fun p => p.1.isPrefixOf t) := by
  have unmatched : k.isPrefixOf t = false := by
    cases found : k.isPrefixOf t with
    | true => exact absurd (List.isPrefixOf_iff_prefix.mp found) absent
    | false => rfl
  simp only [List.find?_append,List.find?_cons,unmatched]

theorem absentFrom (n : Nat) {t : List α} (absent : ¬ k <:+: t) :
    replaceFrom (front ++ (k,v)::back) n t = replaceFrom (front ++ back) n t := by
  induction t generalizing n with
  | nil => rw [replaceFrom,replaceFrom]
  | cons c rest ih =>
    have later : ¬ k <:+: rest := fun found => absent (List.infix_cons found)
    cases n with
    | succ n => exact ih n later
    | zero =>
      rw [replaceFrom,replaceFrom,findAbsent (fun found => absent found.isInfix)]
      split
      · rw [ih _ later]
      · rw [ih 0 later]

theorem replaceAbsent (front back : List (List α × List α)) (v : List α) {t : List α} (absent : ¬ k <:+: t) :
    replace (front ++ (k,v)::back) t = replace (front ++ back) t := absentFrom 0 absent

end Absent

end DevkitCommon.Replacer
