import DevkitCommon.Lib.Cuts
import Mathlib.Data.List.Basic

/-! The secrets of a client, masked one after another in what it logs: an occurrence that no other
overlaps in part goes whole in every text, if and only if the values use up each of themselves. -/
namespace DevkitCommon.Httpx.Secrets
open Cuts

abbrev Bytes := List UInt8

def bytes (s : String) : Bytes := s.toList.flatMap String.utf8EncodeChar

section Escapes

def shouldEscape (query : Bool) (c : UInt8) : Bool :=
  let d := Char.ofNat c.toNat
  if d.isAlphanum || "-_.~".toList.contains d then false
  else if "$&+,/:;=?@".toList.contains d then query || "/;,?".toList.contains d
  else true

def upperHex (n : UInt8) : UInt8 := if n < 10 then 0x30 + n else 0x37 + n

def escapeByte (query : Bool) (c : UInt8) : Bytes :=
  if shouldEscape query c then if query ∧ c = 0x20 then [0x2B] else [0x25,upperHex (c / 16),upperHex (c % 16)] else [c]

def PathEscape (v : Bytes) : Bytes := v.flatMap (escapeByte false)
def QueryEscape (v : Bytes) : Bytes := v.flatMap (escapeByte true)

end Escapes
section Client

def forms (v : Bytes) : List Bytes :=
  if v = [] then [] else
    v::(if PathEscape v ≠ v then [PathEscape v] else []) ++ if QueryEscape v ≠ v then [QueryEscape v] else []

def Secret (keep values : List Bytes) : List Bytes := keep ++ values.flatMap forms

def registered (calls : List (List Bytes)) : List Bytes := calls.foldl Secret []

def star : UInt8 := 0x2A

def redactSecrets (secrets : List Bytes) (s : Bytes) : Bytes :=
  secrets.foldl (fun s v => replace id v (List.replicate 3 star) s) s

end Client
section Statements

/- A text with the place of each byte, and what masking leaves of it; a mask has no place. -/
def placed (t : Bytes) : List (UInt8 × Option Nat) := t.zipIdx.map fun c => (c.1,some c.2)

def traced (secrets : List Bytes) (t : Bytes) : List (UInt8 × Option Nat) :=
  secrets.foldl (fun s v => replace Prod.fst v (List.replicate 3 (star,none)) s) (placed t)

def At (w t : Bytes) (i : Nat) : Prop := w <+: t.drop i

def Crosses (i m j n : Nat) : Prop := i < j ∧ j < i + m ∧ i + m < j + n ∨ j < i ∧ i < j + n ∧ j + n < i + m

structure Clear (secrets : List Bytes) (t v : Bytes) (j : Nat) : Prop where
  secret : v ∈ secrets
  stands : At v t j
  alone : ∀ w ∈ secrets, ∀ i, At w t i → ¬ Crosses i w.length j v.length

def Masked (secrets : List Bytes) (t : Bytes) : Prop := ∀ v j, Clear secrets t v j →
  ∀ c ∈ traced secrets t, ∀ k, c.2 = some k → ¬ (j ≤ k ∧ k < j + v.length)

end Statements
section Proofs
variable {secrets : List Bytes} {calls : List (List Bytes)} {t v : Bytes} {j : Nat}

theorem escapeSome (query : Bool) (c : UInt8) : escapeByte query c ≠ [] := by
  unfold escapeByte
  split
  · split
    · exact List.cons_ne_nil _ _
    · exact List.cons_ne_nil _ _
  · exact List.cons_ne_nil _ _

theorem escapedSome {query : Bool} (some' : v ≠ []) : v.flatMap (escapeByte query) ≠ [] := by
  cases v with
  | nil => exact absurd rfl some'
  | cons c v => exact fun empty => escapeSome query c (List.append_eq_nil_iff.mp empty).1

theorem formsSome : ∀ w ∈ forms v, w ≠ [] := by
  intro w mem
  unfold forms at mem
  split at mem
  · cases mem
  · rename_i some'
    rcases List.mem_append.mp mem with one | query
    · rcases List.mem_cons.mp one with rfl | path
      · exact some'
      · split at path
        · exact List.mem_singleton.mp path ▸ escapedSome some'
        · cases path
    · split at query
      · exact List.mem_singleton.mp query ▸ escapedSome some'
      · cases query

theorem registeredSome (calls : List (List Bytes)) : ∀ w ∈ registered calls, w ≠ [] := by
  have from' (calls : List (List Bytes)) (keep : List Bytes) (all : ∀ w ∈ keep, w ≠ []) : ∀ w ∈ calls.foldl Secret keep, w ≠ [] := by
    induction calls generalizing keep with
    | nil => exact all
    | cons values calls ih =>
      refine ih _ fun w mem => ?_
      rcases List.mem_append.mp mem with old | new
      · exact all w old
      · obtain ⟨v,_,form⟩ := List.mem_flatMap.mp new
        exact formsSome w form
  exact from' calls [] fun _ mem => absurd mem List.not_mem_nil

theorem placedKeys (t : Bytes) : (placed t).map Prod.fst = t := by
  rw [placed,List.map_map]
  exact List.zipIdx_map_fst 0 t

theorem tracedIs (all : ∀ w ∈ secrets, w ≠ []) (t : Bytes) : (traced secrets t).map Prod.fst = redactSecrets secrets t := by
  have fold (s : List (UInt8 × Option Nat)) :
      (secrets.foldl (fun s v => replace Prod.fst v (List.replicate 3 (star,none)) s) s).map Prod.fst =
      redactSecrets secrets (s.map Prod.fst) := by
    unfold redactSecrets
    induction secrets generalizing s with
    | nil => rfl
    | cons w secrets ih =>
      have one : (replace Prod.fst w (List.replicate 3 (star,none)) s).map Prod.fst =
          replace id w ((List.replicate 3 ((star,none) : UInt8 × Option Nat)).map Prod.fst) (s.map Prod.fst) :=
        mapReplace Prod.fst id (all w List.mem_cons_self) (fun _ => rfl) s
      rw [List.map_replicate] at one
      rw [List.foldl_cons,List.foldl_cons,ih fun u mem => all u (List.mem_cons_of_mem w mem),one]
  rw [traced,fold,placedKeys]

theorem placedAt (t : Bytes) (k : Nat) : (placed t)[k]? = t[k]?.map fun c => (c,some k) := by
  rw [placed,List.getElem?_map,List.getElem?_zipIdx]
  cases t[k]? with
  | none => rfl
  | some c => exact congrArg (fun i => some (c,some i)) (Nat.zero_add k)

theorem placedBefore {c : UInt8 × Option Nat} {k : Nat} (mem : c ∈ (placed t).take j) (is : c.2 = some k) : k < j := by
  obtain ⟨i,found⟩ := List.mem_iff_getElem?.mp mem
  rw [List.getElem?_take] at found
  split at found
  · rename_i before
    rw [placedAt] at found
    obtain ⟨b,_,rfl⟩ := Option.map_eq_some_iff.mp found
    exact Option.some.inj is ▸ before
  · cases found

theorem placedBehind {c : UInt8 × Option Nat} {k : Nat} (mem : c ∈ (placed t).drop j) (is : c.2 = some k) : j ≤ k := by
  obtain ⟨i,found⟩ := List.mem_iff_getElem?.mp mem
  rw [List.getElem?_drop,placedAt] at found
  obtain ⟨b,_,rfl⟩ := Option.map_eq_some_iff.mp found
  exact Option.some.inj is ▸ Nat.le_add_right j i

theorem atPlaced {pre x post : List (UInt8 × Option Nat)} (whole : placed t = pre ++ (x ++ post)) : At (x.map Prod.fst) t pre.length := by
  have text := congrArg (List.map Prod.fst) whole
  rw [placedKeys,List.map_append,List.map_append] at text
  unfold At
  rw [text,← List.length_map (f := Prod.fst),List.drop_left]
  exact List.prefix_append _ _

theorem clearIsolated (all : ∀ w ∈ secrets, w ≠ []) (clear : Clear secrets t v j) : ∃ pre x post, placed t = pre ++ (x ++ post) ∧
    x.map Prod.fst = v ∧ (∀ c ∈ pre, ∀ k, c.2 = some k → k < j) ∧ (∀ c ∈ post, ∀ k, c.2 = some k → j + v.length ≤ k) ∧
      Isolated Prod.fst secrets pre x post := by
  have pos : 0 < v.length := List.length_pos_of_ne_nil (all v clear.secret)
  have long : v.length ≤ t.length - j := (List.IsPrefix.length_le clear.stands).trans (by rw [List.length_drop])
  have count : (placed t).length = t.length := by rw [← List.length_map (f := Prod.fst),placedKeys]
  have keys : (((placed t).drop j).take v.length).map Prod.fst = v := by
    rw [List.map_take,List.map_drop,placedKeys]
    exact (List.prefix_iff_eq_take.mp clear.stands).symm
  have whole : placed t = (placed t).take j ++ (((placed t).drop j).take v.length ++ (placed t).drop (j + v.length)) := by
    rw [← List.drop_drop,List.take_append_drop,List.take_append_drop]
  have before : ((placed t).take j).length = j := by rw [List.length_take,count]; omega
  have within : (((placed t).drop j).take v.length).length = v.length := by rw [← List.length_map (f := Prod.fst),keys]
  refine ⟨_,_,_,whole,keys,fun c mem k is => placedBefore mem is,fun c mem k is => placedBehind mem is,?_,?_⟩
  · intro w mem a b some₁ some₂ made left right
    by_contra other
    have less : b.length < v.length := by
      refine Nat.lt_of_le_of_ne (within ▸ right.length_le) fun same => other (right.eq_of_length (same.trans within.symm))
    have some₃ := List.length_pos_of_ne_nil some₁
    have some₄ := List.length_pos_of_ne_nil some₂
    obtain ⟨front,left⟩ := left
    obtain ⟨back,right⟩ := right
    have there : placed t = front ++ ((a ++ b) ++ (back ++ (placed t).drop (j + v.length))) := by
      rw [List.append_assoc,← List.append_assoc b,right,← List.append_assoc front,left]
      exact whole
    have size : w.length = a.length + b.length := by rw [← made,List.length_map,List.length_append]
    have place : j = front.length + a.length := by rw [← List.length_append,left,before]
    have stands := atPlaced there
    rw [made] at stands
    exact clear.alone w mem front.length stands (.inl ⟨by omega,by omega,by omega⟩)
  · intro w mem a b some₁ some₂ made left right
    by_contra other
    have less : a.length < v.length := by
      refine Nat.lt_of_le_of_ne (within ▸ left.length_le) fun same => other (left.eq_of_length (same.trans within.symm))
    have some₃ := List.length_pos_of_ne_nil some₁
    have some₄ := List.length_pos_of_ne_nil some₂
    obtain ⟨front,left⟩ := left
    obtain ⟨back,right⟩ := right
    have there : placed t = ((placed t).take j ++ front) ++ ((a ++ b) ++ back) := by
      rw [List.append_assoc,List.append_assoc a,right,← List.append_assoc front,left]
      exact whole
    have size : w.length = a.length + b.length := by rw [← made,List.length_map,List.length_append]
    have place : v.length = front.length + a.length := by rw [← List.length_append,left,within]
    have stands := atPlaced there
    rw [made,List.length_append,before] at stands
    exact clear.alone w mem (j + front.length) stands (.inr ⟨by omega,by omega,by omega⟩)

theorem tracedCut (all : ∀ w ∈ secrets, w ≠ []) (inert : ∀ w ∈ secrets.tail, Inert star 3 w) (t : Bytes) :
    traced secrets t = render (star,none) 3 (cutAll Prod.fst secrets ((placed t).map some)) := renderAll (star,none) all inert (placed t)

theorem clearGone (all : ∀ w ∈ secrets, w ≠ []) (inert : ∀ w ∈ secrets.tail, Inert star 3 w)
    (used : ∀ v ∈ secrets, UsedUp secrets v) (t : Bytes) : Masked secrets t := by
  intro v j clear c mem k is inside
  obtain ⟨pre,x,post,whole,rfl,before,behind,isolated⟩ := clearIsolated all clear
  have gone := isolatedGone all isolated (used _ clear.secret)
  rw [tracedCut all inert,whole,render] at mem
  obtain ⟨o,there,kept⟩ := List.mem_flatMap.mp mem
  cases o with
  | none =>
    obtain rfl := List.eq_of_mem_replicate kept
    cases is
  | some d =>
    obtain rfl := List.mem_singleton.mp kept
    rcases gone c there with first | last
    · exact absurd (before c first k is) (Nat.not_lt.mpr inside.1)
    · exact absurd (behind c last k is) (Nat.not_le.mpr inside.2)

theorem selfClear (mem : v ∈ secrets) : Clear secrets v v 0 := by
  refine ⟨mem,List.prefix_rfl,fun w _ i stands crosses => ?_⟩
  have most : w.length ≤ v.length - i := (List.IsPrefix.length_le stands).trans (by rw [List.length_drop])
  unfold Crosses at crosses
  omega

theorem maskedUsed (all : ∀ w ∈ secrets, w ≠ []) (inert : ∀ w ∈ secrets.tail, Inert star 3 w) (mem : v ∈ secrets)
    (masked : Masked secrets v) : UsedUp secrets v := by
  intro o left
  cases o with
  | none => rfl
  | some b =>
    have keys : ((placed v).map some).map (Option.map Prod.fst) = v.map some := by
      rw [List.map_map]
      conv => rhs; rw [← placedKeys v,List.map_map]
      rfl
    rw [← keys,← mapCutAll Prod.fst all] at left
    obtain ⟨o,there,same⟩ := List.mem_map.mp left
    obtain ⟨c,rfl,rfl⟩ := Option.map_eq_some_iff.mp same
    have own : c ∈ placed v := memLeft (remainsAll all _) there
    obtain ⟨k,found⟩ := List.mem_iff_getElem?.mp own
    have form := found
    rw [placedAt] at form
    obtain ⟨d,at',rfl⟩ := Option.map_eq_some_iff.mp form
    have kept : (d,some k) ∈ traced secrets v := by
      rw [tracedCut all inert,render]
      exact List.mem_flatMap.mpr ⟨_,there,List.mem_singleton.mpr rfl⟩
    refine absurd ⟨Nat.zero_le k,?_⟩ (masked v 0 (selfClear mem) _ kept k rfl)
    rw [Nat.zero_add]
    exact (List.getElem?_eq_some_iff.mp at').1

theorem secretsMasked (calls : List (List Bytes)) (inert : ∀ w ∈ (registered calls).tail, Inert star 3 w) :
    (∀ t, (traced (registered calls) t).map Prod.fst = redactSecrets (registered calls) t) ∧
      ((∀ t, Masked (registered calls) t) ↔ ∀ v ∈ registered calls, UsedUp (registered calls) v) := by
  have all := registeredSome calls
  refine ⟨tracedIs all,?_,?_⟩
  · intro masked v mem
    exact maskedUsed all inert mem (masked v)
  · exact clearGone all inert

theorem tokenMasked :
    redactSecrets (registered [[bytes "12345:AAH",bytes "12345"]]) (bytes "/bot12345:AAH/sendMessage") = bytes "/bot***/sendMessage" ∧
      Masked (registered [[bytes "12345:AAH",bytes "12345"]]) (bytes "/bot12345:AAH/sendMessage") := by
  have inert : ∀ w ∈ (registered [[bytes "12345:AAH",bytes "12345"]]).tail, Inert star 3 w := by
    have only : (registered [[bytes "12345:AAH",bytes "12345"]]).tail = [bytes "12345%3AAAH",bytes "12345"] := by decide +kernel
    intro w mem
    rw [only,List.mem_cons,List.mem_singleton] at mem
    rcases mem with rfl | rfl
    · exact ⟨by decide +kernel,by decide +kernel,by decide +kernel⟩
    · exact ⟨by decide +kernel,by decide +kernel,by decide +kernel⟩
  have used : ∀ v ∈ registered [[bytes "12345:AAH",bytes "12345"]], UsedUp (registered [[bytes "12345:AAH",bytes "12345"]]) v := by
    unfold UsedUp
    decide +kernel
  exact ⟨by decide +kernel,(secretsMasked [[bytes "12345:AAH",bytes "12345"]] inert).2.mpr used _⟩

theorem tokenTailLogged : redactSecrets (registered [[bytes "12345",bytes "12345:AAH"]]) (bytes "/bot12345:AAH/sendMessage") =
      bytes "/bot***:AAH/sendMessage" ∧ ¬ ∀ calls t, Masked (registered calls) t := by
  refine ⟨by decide +kernel,fun masked => ?_⟩
  have token : bytes "12345:AAH" ∈ registered [[bytes "12345",bytes "12345:AAH"]] := by decide +kernel
  have logged : ((0x3A : UInt8),some 5) ∈ traced (registered [[bytes "12345",bytes "12345:AAH"]]) (bytes "12345:AAH") := by decide +kernel
  exact masked [[bytes "12345",bytes "12345:AAH"]] _ _ 0 (selfClear token) _ logged 5 rfl ⟨by decide,by decide⟩

end Proofs
end DevkitCommon.Httpx.Secrets
