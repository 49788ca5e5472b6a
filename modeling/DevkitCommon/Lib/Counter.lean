import DevkitCommon.Lib.Redis

/-! Redis counters: INCR and PEXPIRE, and the order of counts in a list. -/
namespace DevkitCommon.Counter
open Redis

section Commands
variable {κ : Type} [DecidableEq κ]

def incr (s : Store κ Nat) (now : Int) (k : κ) : Store κ Nat :=
  Function.update s k (some (match lookup s now k with
    | none => ⟨1,none⟩
    | some e => {e with value := e.value + 1}))

def pexpire (s : Store κ Nat) (now : Int) (k : κ) (ttl : Int) : Store κ Nat :=
  match lookup s now k with
  | none => s
  | some e =>
    if ttl / millisecond ≤ 0 then del s k
    else Function.update s k (some {e with lapses := some (now + ttl / millisecond)})

variable {s : Store κ Nat} {now ttl : Int} {j k : κ} {n : Nat}

theorem incrOther (other : j ≠ k) : incr s now k j = s j := Function.update_of_ne other ..

theorem incrSame (s : Store κ Nat) (now : Int) (k : κ) : ∃ l, incr s now k k = some ⟨(Redis.get s now k).getD 0 + 1,l⟩ ∧
    ∀ e, lookup s now k = some e → l = e.lapses := by
  unfold incr Redis.get
  rw [Function.update_self]
  cases look : lookup s now k with
  | none => exact ⟨none,rfl,fun e same => nomatch same⟩
  | some e => exact ⟨e.lapses,rfl,fun f same => by rw [Option.some.inj same]⟩

theorem pexpireOther (other : j ≠ k) : pexpire s now k ttl j = s j := by
  cases look : lookup s now k with
  | none => rw [pexpire,look]
  | some e =>
    by_cases short : ttl / millisecond ≤ 0
    · have deleted : pexpire s now k ttl = del s k := by simp only [pexpire,look,if_pos short]
      rw [deleted,delOther other]
    · simp only [pexpire,look,if_neg short]
      exact Function.update_of_ne other ..

theorem pexpireSame {e : Entry Nat} (live : lookup s now k = some e) (positive : 0 < ttl / millisecond) :
    pexpire s now k ttl k = some ⟨e.value,some (now + ttl / millisecond)⟩ := by
  have long : ¬ ttl / millisecond ≤ 0 := by omega
  simp only [pexpire,live,if_neg long]
  exact Function.update_self ..

end Commands

theorem growingBound {ns : List Nat} (growing : ns.Pairwise (· < ·)) {lo hi : Nat}
    (within : ∀ n ∈ ns, lo < n ∧ n ≤ hi) : ns.length ≤ hi - lo := by
  induction ns generalizing lo with
  | nil => exact Nat.zero_le _
  | cons n rest ih =>
    obtain ⟨above,later⟩ := List.pairwise_cons.mp growing
    obtain ⟨first,last⟩ := within n List.mem_cons_self
    have tail := ih later (fun m mem => ⟨above m mem,(within m (List.mem_cons_of_mem _ mem)).2⟩)
    rw [List.length_cons]
    omega

end DevkitCommon.Counter
