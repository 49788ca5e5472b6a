import Mathlib.Data.List.Infix

/-! Where ASCII stands in the UTF-8 form of a text: its own byte, and no byte of another letter. -/
namespace DevkitCommon.UTF8

def utf8 (t : List Char) : List UInt8 := t.flatMap String.utf8EncodeChar

theorem utf8Cons (c : Char) (t : List Char) : utf8 (c::t) = String.utf8EncodeChar c ++ utf8 t := rfl

theorem encodeASCII {c : Char} (ascii : c.toNat < 128) : String.utf8EncodeChar c = [UInt8.ofNat c.toNat] := by
  have small : c.val.toNat ≤ 0x7F := Nat.le_of_lt_succ ascii
  simp only [String.utf8EncodeChar,if_pos small,Char.toNat]

theorem byteLarge {n : Nat} (small : n < 256) (large : 128 ≤ n) : 128 ≤ (UInt8.ofNat n).toNat := by
  rw [UInt8.toNat_ofNat_of_lt' small]
  exact large

theorem encodeLarge {c : Char} (other : ¬ c.toNat < 128) : ∀ b ∈ String.utf8EncodeChar c, 128 ≤ b.toNat := by
  have beyond : ¬ c.val.toNat ≤ 0x7F := fun small => other (Nat.lt_succ_of_le small)
  intro b inside
  unfold String.utf8EncodeChar at inside
  dsimp only at inside
  rw [if_neg beyond] at inside
  split at inside
  · simp only [List.mem_cons,List.not_mem_nil,or_false] at inside
    rcases inside with rfl | rfl <;> exact byteLarge (by omega) (by omega)
  split at inside
  · simp only [List.mem_cons,List.not_mem_nil,or_false] at inside
    rcases inside with rfl | rfl | rfl <;> exact byteLarge (by omega) (by omega)
  · simp only [List.mem_cons,List.not_mem_nil,or_false] at inside
    rcases inside with rfl | rfl | rfl | rfl <;> exact byteLarge (by omega) (by omega)

section Found
variable {k t : List Char}

theorem byteASCII {c d : Char} (ascii : c.toNat < 128) {rest more : List UInt8}
    (same : UInt8.ofNat c.toNat::rest = String.utf8EncodeChar d ++ more) : d = c ∧ rest = more := by
  have value : (UInt8.ofNat c.toNat).toNat = c.toNat := UInt8.toNat_ofNat_of_lt' (Nat.lt_trans ascii (by decide))
  by_cases plain : d.toNat < 128
  · rw [encodeASCII plain,List.singleton_append] at same
    obtain ⟨front,back⟩ := List.cons.inj same
    have number := congrArg UInt8.toNat front
    rw [value,UInt8.toNat_ofNat_of_lt' (Nat.lt_trans plain (by decide))] at number
    refine ⟨?_,back⟩
    rw [← Char.ofNat_toNat c,← Char.ofNat_toNat d,number]
  · have large := encodeLarge plain
    cases form : String.utf8EncodeChar d with
    | nil => exact absurd (String.length_utf8EncodeChar d) (by rw [form]; exact fun none => absurd none (Nat.ne_of_lt d.utf8Size_pos))
    | cons b bs =>
      rw [form,List.cons_append] at same
      have number := large b (form ▸ List.mem_cons_self)
      rw [← (List.cons.inj same).1,value] at number
      omega

theorem prefixBytes (ascii : ∀ c ∈ k, c.toNat < 128) (found : utf8 k <+: utf8 t) : k <+: t := by
  induction k generalizing t with
  | nil => exact List.nil_prefix
  | cons c rest ih =>
    obtain ⟨more,whole⟩ := found
    have here := ascii c List.mem_cons_self
    rw [utf8Cons,encodeASCII here,List.singleton_append,List.cons_append] at whole
    cases t with
    | nil => exact nomatch whole
    | cons d t =>
      rw [utf8Cons] at whole
      obtain ⟨rfl,after⟩ := byteASCII here whole
      have later := ih (fun b inside => ascii b (List.mem_cons_of_mem d inside)) ⟨more,after⟩
      exact List.cons_prefix_cons.mpr ⟨rfl,later⟩

theorem behindLarge {d : Char} {front within : List UInt8} (same : String.utf8EncodeChar d = front ++ within)
    (begun : front ≠ []) : ∀ b ∈ within, 128 ≤ b.toNat := by
  intro b inside
  by_cases plain : d.toNat < 128
  · rw [encodeASCII plain] at same
    have size := congrArg List.length same
    have first := List.length_pos_of_ne_nil begun
    have second := List.length_pos_of_mem inside
    simp only [List.length_append,List.length_cons,List.length_nil] at size
    omega
  · exact encodeLarge plain b (same ▸ List.mem_append_right front inside)

theorem asciiAll (ascii : k.all (fun c => c.toNat < 128) = true) : ∀ c ∈ k, c.toNat < 128 :=
  fun c mem => of_decide_eq_true (List.all_eq_true.mp ascii c mem)

theorem infixBytes (ascii : ∀ c ∈ k, c.toNat < 128) (filled : k ≠ []) (found : utf8 k <:+: utf8 t) : k <:+: t := by
  obtain ⟨c,cs,rfl⟩ := List.exists_cons_of_ne_nil filled
  have small := ascii c List.mem_cons_self
  have form : utf8 (c::cs) = UInt8.ofNat c.toNat::utf8 cs := by
    rw [utf8Cons,encodeASCII small,List.singleton_append]
  induction t with
  | nil =>
    rw [form] at found
    exact nomatch List.infix_nil.mp found
  | cons d rest ih =>
    obtain ⟨front,more,whole⟩ := found
    by_cases start : front = []
    · rw [start,List.nil_append] at whole
      exact (prefixBytes ascii ⟨more,whole⟩).isInfix
    · -- it begins behind the first letter, for inside one no byte is small
      rw [utf8Cons d,List.append_assoc] at whole
      rcases List.append_eq_append_iff.mp whole with ⟨within,same,after⟩ | ⟨past,same,after⟩
      · cases within with
        | nil =>
          rw [List.nil_append] at after
          exact List.infix_cons_iff.mpr (.inr (ih ⟨[],more,by rw [List.nil_append,after]⟩))
        | cons b bs =>
          have large := behindLarge same start b List.mem_cons_self
          rw [form,List.cons_append,List.cons_append] at after
          rw [← (List.cons.inj after).1,UInt8.toNat_ofNat_of_lt' (Nat.lt_trans small (by decide))] at large
          omega
      · exact List.infix_cons_iff.mpr (.inr (ih ⟨past,more,by rw [List.append_assoc,← after]⟩))

end Found

end DevkitCommon.UTF8
