import DevkitCommon.Idx.Unique

/-! Next of one instance against its clock. Every reading of the clock is a step, whether a call
begins with it or one that has used up its millisecond asks again: between two readings the
clock may have gone anywhere. -/
namespace DevkitCommon.Idx

structure Built where
  id : Nat
  ms : Nat
  seq : Nat
  deriving DecidableEq, Repr

/- waiting: a call has more than maxSeq numbers and reads the clock until it is past lastMs. -/
structure Numbering where
  lastMs : Nat
  seq : Nat
  waiting : Bool
  built : List Built
  deriving DecidableEq, Repr

def Numbering.init : Numbering := ⟨0,0,false,[]⟩

section Next
variable (cfg : Config) (number : Nat)

def Numbering.build (s : Numbering) (now seq : Nat) : Numbering :=
  ⟨now,seq,false,s.built ++ [⟨compose cfg now number seq,now,seq⟩]⟩

def Numbering.read (s : Numbering) (reading : Nat) : Numbering :=
  if s.waiting then
    if reading ≤ s.lastMs then s else s.build cfg number reading 0
  else
    -- a clock that went back is waited for, and not read again
    let now := if reading < s.lastMs then s.lastMs else reading
    if now = s.lastMs then
      if cfg.maxSeq < s.seq+1 then {s with seq := s.seq+1,waiting := true}
      else s.build cfg number now (s.seq+1)
    else s.build cfg number now 0

def reads (readings : List Nat) : Numbering := readings.foldl (Numbering.read cfg number) .init

end Next

def timeOf (id : Nat) : Nat := id >>> lowBits

def instanceOf (id : Nat) (instanceBits : Int) : Nat :=
  let bits := (if instanceBits = 0 then defaultInstanceBits else instanceBits).toNat
  id >>> (lowBits-bits) &&& (1 <<< bits - 1)

structure Sound (cfg : Config) (number : Nat) (b : Built) : Prop where
  made : b.id = compose cfg b.ms number b.seq
  short : b.seq ≤ cfg.maxSeq
  some : 0 < b.ms ∨ 0 < b.seq

def Earlier (a b : Built) : Prop := a.ms < b.ms ∨ a.ms = b.ms ∧ a.seq < b.seq

structure Kept (cfg : Config) (number : Nat) (s : Numbering) : Prop where
  sound : ∀ b ∈ s.built, Sound cfg number b
  ordered : s.built.Pairwise Earlier
  last : ∀ b ∈ s.built, b.ms < s.lastMs ∨ b.ms = s.lastMs ∧ b.seq ≤ s.seq
  short : s.waiting = false → s.seq ≤ cfg.maxSeq

variable {cfg : Config} {number : Nat} {s : Numbering}

theorem buildKept (kept : Kept cfg number s) {now seq : Nat} (short : seq ≤ cfg.maxSeq)
    (later : s.lastMs < now ∨ s.lastMs = now ∧ s.seq < seq) : Kept cfg number (s.build cfg number now seq) := by
  have new : Sound cfg number ⟨compose cfg now number seq,now,seq⟩ := ⟨rfl,short,by simp only; omega⟩
  have before : ∀ b ∈ s.built, Earlier b ⟨compose cfg now number seq,now,seq⟩ := by
    intro b mem
    have := kept.last b mem
    simp only [Earlier]
    omega
  constructor
  · intro b mem
    rcases List.mem_append.mp mem with old | last
    · exact kept.sound b old
    · exact List.mem_singleton.mp last ▸ new
  · refine List.pairwise_append.mpr ⟨kept.ordered,List.pairwise_singleton _ _,fun b mem c last => ?_⟩
    exact List.mem_singleton.mp last ▸ before b mem
  · intro b mem
    rcases List.mem_append.mp mem with old | last
    · have := before b old
      simp only [Earlier] at this
      simp only [Numbering.build]
      omega
    · rw [List.mem_singleton.mp last]
      exact .inr ⟨rfl,le_refl _⟩
  · exact fun _ => short

theorem readKept (kept : Kept cfg number s) (reading : Nat) : Kept cfg number (s.read cfg number reading) := by
  unfold Numbering.read
  split
  · split
    · exact kept
    · exact buildKept kept (Nat.zero_le _) (.inl (by omega))
  · rename_i ready
    generalize settled : (if reading < s.lastMs then s.lastMs else reading) = now
    have atLeast : s.lastMs ≤ now := by
      split at settled <;> omega
    dsimp only
    split
    · rename_i same
      split
      · refine ⟨kept.sound,kept.ordered,fun b mem => ?_,fun waiting => Bool.noConfusion waiting⟩
        have := kept.last b mem
        simp only
        omega
      · exact buildKept kept (by omega) (.inr ⟨same.symm,by omega⟩)
    · exact buildKept kept (Nat.zero_le _) (.inl (by omega))

theorem readsKept (cfg : Config) (number : Nat) (readings : List Nat) : Kept cfg number (reads cfg number readings) := by
  have all (s : Numbering) (kept : Kept cfg number s) : Kept cfg number (readings.foldl (Numbering.read cfg number) s) := by
    induction readings generalizing s with
    | nil => exact kept
    | cons reading rest ih => exact ih (s.read cfg number reading) (readKept kept reading)
  exact all .init ⟨by simp [Numbering.init],List.Pairwise.nil,by simp [Numbering.init],fun _ => Nat.zero_le _⟩

theorem decoded (ms : Nat) (valid : cfg.valid = true) (inst : number ≤ cfg.maxInstance) {seq : Nat} (short : seq ≤ cfg.maxSeq) :
    timeOf (compose cfg ms number seq) = ms ∧ instanceOf (compose cfg ms number seq) cfg.instanceBits = number := by
  obtain ⟨adds,fits,below⟩ := composeAdds ms valid inst short
  have whole : 2^lowBits = 2^cfg.bits.toNat*2^cfg.seqBits := by rw [← Nat.pow_add,bitsSplit valid]
  have small : number < 2^cfg.bits.toNat := by
    have := Nat.two_pow_pos cfg.bits.toNat
    unfold Config.maxInstance at inst
    omega
  constructor
  · rw [timeOf,Nat.shiftRight_eq_div_pow,adds,Nat.mul_comm,Nat.mul_add_div (Nat.two_pow_pos _),Nat.div_eq_of_lt fits,
      Nat.add_zero]
  · have low : (number*2^cfg.seqBits+seq)/2^cfg.seqBits = number := by
      rw [Nat.mul_comm,Nat.mul_add_div (Nat.two_pow_pos _),Nat.div_eq_of_lt below,Nat.add_zero]
    have high : compose cfg ms number seq/2^cfg.seqBits = ms*2^cfg.bits.toNat+number := by
      rw [adds,whole,← Nat.mul_assoc,Nat.mul_comm (ms*2^cfg.bits.toNat),Nat.mul_add_div (Nat.two_pow_pos _),low]
    have same : instanceOf (compose cfg ms number seq) cfg.instanceBits =
        compose cfg ms number seq >>> cfg.seqBits &&& (1 <<< cfg.bits.toNat - 1) := rfl
    rw [same,Nat.shiftRight_eq_div_pow,high,Nat.one_shiftLeft,Nat.and_two_pow_sub_one_eq_mod,Nat.mul_comm,
      Nat.mul_add_mod,Nat.mod_eq_of_lt small]

theorem earlierLess (valid : cfg.valid = true) (inst : number ≤ cfg.maxInstance) {a b : Built}
    (first : Sound cfg number a) (second : Sound cfg number b) (earlier : Earlier a b) : a.id < b.id := by
  obtain ⟨adds,fits,-⟩ := composeAdds a.ms valid inst first.short
  obtain ⟨adds',-,-⟩ := composeAdds b.ms valid inst second.short
  rw [first.made,second.made,adds,adds']
  rcases earlier with before | ⟨same,before⟩
  · have : (a.ms+1)*2^lowBits ≤ b.ms*2^lowBits := Nat.mul_le_mul_right _ before
    rw [Nat.succ_mul] at this
    omega
  · rw [same]
    omega

theorem increasing (cfg : Config) (number : Nat) (readings : List Nat) (valid : cfg.valid = true)
    (inst : number ≤ cfg.maxInstance) :
    ((reads cfg number readings).built.map Built.id).Pairwise (· < ·) ∧
    ∀ b ∈ (reads cfg number readings).built, b.seq ≤ cfg.maxSeq ∧
      timeOf b.id = b.ms ∧ instanceOf b.id cfg.instanceBits = number ∧ (b.ms < 2^41 → 0 < b.id ∧ b.id < 2^53) := by
  have kept := readsKept cfg number readings
  constructor
  · rw [List.pairwise_map]
    exact kept.ordered.imp_of_mem (fun first second earlier =>
      earlierLess valid inst (kept.sound _ first) (kept.sound _ second) earlier)
  · intro b mem
    have sound := kept.sound b mem
    obtain ⟨time,instance'⟩ := decoded b.ms valid inst sound.short
    obtain ⟨adds,fits,-⟩ := composeAdds b.ms valid inst sound.short
    have id : b.id = b.ms*2^lowBits+(number*2^cfg.seqBits+b.seq) := sound.made.trans adds
    refine ⟨sound.short,sound.made ▸ time,sound.made ▸ instance',fun small => ?_⟩
    have whole : (2 : Nat)^53 = 2^41*2^lowBits := by decide
    have room : (b.ms+1)*2^lowBits ≤ 2^41*2^lowBits := Nat.mul_le_mul_right _ small
    have some : 0 < b.ms*2^lowBits+b.seq := by
      rcases sound.some with ms | seq
      · exact Nat.add_pos_left (Nat.mul_pos ms (Nat.two_pow_pos _)) _
      · omega
    rw [Nat.succ_mul] at room
    omega

theorem backAndForth : ((reads ⟨0⟩ 31 [0,0,7,3,8]).built.map Built.id).Pairwise (· < ·) ∧
    (reads ⟨0⟩ 31 [0,0,7,3,8]).built.map Built.id = [3969,3970,32640,32641,36736] :=
  ⟨(increasing ⟨0⟩ 31 [0,0,7,3,8] (by decide) (by decide)).1,by decide⟩

end DevkitCommon.Idx
