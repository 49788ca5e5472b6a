import DevkitCommon.Idx.Generator
import Mathlib.Data.List.Nodup

/-! No id twice. A generator asks nobody when it makes an id, so the law rests on the lease
of its number still being its own, on a number changing hands only after the millisecond
of its last id, and on all replicas splitting the low bits alike in one millisecond. -/
namespace DevkitCommon.Idx
open Machine Redis

def Unique (s : State) : Prop := (s.issued.map Issue.id).Nodup

/- An id is made by the last generator that took its number, and under the split of every
id made in this millisecond; and a number is taken in a later millisecond than the last
id that another has made under it. -/
def sure (s : State) : Action → Bool
  | .next g => (s.gens[g]?).all (fun gen => (s.taken gen.number).any (fun owner => owner.1 == g) &&
      s.issued.all (fun e => decide (e.ms < s.clock) || e.cfg.bits == gen.cfg.bits))
  | .setNX g reply => !reply.ran || (s.gens[g]?).all (fun gen => gen.tries.all (fun n =>
      (get s.keys s.clock n).isSome ||
        s.issued.all (fun e => e.number != n || e.owner == g || decide (e.ms < s.clock))))
  | _ => true

def Sure (s : State) (a : Action) : Prop := sure s a = true
instance (s : State) (a : Action) : Decidable (Sure s a) := by unfold Sure; infer_instance

section Layout
variable {cfg : Config} {ms number seq : Nat}

theorem bitsSplit (valid : cfg.valid = true) : cfg.bits.toNat + cfg.seqBits = lowBits := by
  simp only [Config.valid,decide_eq_true_eq] at valid
  unfold Config.seqBits lowBits
  omega

theorem composeAdds (ms : Nat) (valid : cfg.valid = true) (inst : number ≤ cfg.maxInstance) (short : seq ≤ cfg.maxSeq) :
    compose cfg ms number seq = ms*2^lowBits + (number*2^cfg.seqBits + seq) ∧
      number*2^cfg.seqBits + seq < 2^lowBits ∧ seq < 2^cfg.seqBits := by
  have below : seq < 2^cfg.seqBits := by
    have := Nat.two_pow_pos cfg.seqBits
    unfold Config.maxSeq at short
    omega
  have fits : number*2^cfg.seqBits + seq < 2^lowBits := by
    have := Nat.two_pow_pos cfg.bits.toNat
    unfold Config.maxInstance at inst
    calc number*2^cfg.seqBits + seq < number*2^cfg.seqBits + 2^cfg.seqBits := by omega
      _ = (number + 1)*2^cfg.seqBits := by rw [Nat.succ_mul]
      _ ≤ 2^cfg.bits.toNat*2^cfg.seqBits := Nat.mul_le_mul_right _ (by omega)
      _ = 2^lowBits := by rw [← Nat.pow_add,bitsSplit valid]
  refine ⟨?_,fits,below⟩
  have low : number <<< cfg.seqBits ||| seq = number*2^cfg.seqBits + seq := by
    rw [← Nat.shiftLeft_add_eq_or_of_lt below,Nat.shiftLeft_eq]
  rw [compose,Nat.or_assoc,low,← Nat.shiftLeft_add_eq_or_of_lt fits,Nat.shiftLeft_eq]

theorem digitsApart {k a b c d : Nat} (same : a*k + b = c*k + d) (hb : b < k) (hd : d < k) : a = c ∧ b = d := by
  have quotient := congrArg (· / k) same
  have rest := congrArg (· % k) same
  have positive : 0 < k := Nat.zero_lt_of_lt hb
  simp only [Nat.add_comm (a*k),Nat.add_comm (c*k),Nat.add_mul_div_right _ _ positive,
    Nat.div_eq_of_lt hb,Nat.div_eq_of_lt hd,Nat.zero_add] at quotient
  simp only [Nat.add_comm (a*k),Nat.add_comm (c*k),Nat.add_mul_mod_self_right,Nat.mod_eq_of_lt hb,
    Nat.mod_eq_of_lt hd] at rest
  exact ⟨quotient,rest⟩

theorem composeApart {ms' number' seq' : Nat} (valid : cfg.valid = true) (inst : number ≤ cfg.maxInstance)
    (short : seq ≤ cfg.maxSeq) (inst' : number' ≤ cfg.maxInstance) (short' : seq' ≤ cfg.maxSeq)
    (same : compose cfg ms number seq = compose cfg ms' number' seq') :
    ms = ms' ∧ number = number' ∧ seq = seq' := by
  obtain ⟨adds,fits,below⟩ := composeAdds ms valid inst short
  obtain ⟨adds',fits',below'⟩ := composeAdds ms' valid inst' short'
  rw [adds,adds'] at same
  obtain ⟨time,low⟩ := digitsApart same fits fits'
  exact ⟨time,digitsApart low below below'⟩

theorem composeTime {cfg' : Config} {ms' number' seq' : Nat} (valid : cfg.valid = true)
    (inst : number ≤ cfg.maxInstance) (short : seq ≤ cfg.maxSeq) (valid' : cfg'.valid = true)
    (inst' : number' ≤ cfg'.maxInstance) (short' : seq' ≤ cfg'.maxSeq)
    (same : compose cfg ms number seq = compose cfg' ms' number' seq') : ms = ms' := by
  obtain ⟨adds,fits,-⟩ := composeAdds ms valid inst short
  obtain ⟨adds',fits',-⟩ := composeAdds ms' valid' inst' short'
  rw [adds,adds'] at same
  exact (digitsApart same fits fits').1

theorem splitSame {cfg' : Config} (same : cfg.bits = cfg'.bits) : cfg.seqBits = cfg'.seqBits ∧
    cfg.maxInstance = cfg'.maxInstance ∧ cfg.maxSeq = cfg'.maxSeq := by
  have bits : cfg.seqBits = cfg'.seqBits := by unfold Config.seqBits; rw [same]
  exact ⟨bits,by unfold Config.maxInstance; rw [same],by unfold Config.maxSeq; rw [bits]⟩

end Layout

def Generator.sound (gen : Generator) : Prop :=
  (gen.point = .failed ∨ gen.cfg.valid = true) ∧ gen.number ≤ gen.cfg.maxInstance ∧
    ∀ n, gen.tries = some n ∨ gen.point = .moves n → n ≤ gen.cfg.maxInstance

def Issue.made (e : Issue) : Prop := e.id = compose e.cfg e.ms e.number e.seq ∧ e.cfg.valid = true ∧
  e.number ≤ e.cfg.maxInstance ∧ e.seq ≤ e.cfg.maxSeq

structure Apart (s : State) : Prop where
  unique : Unique s
  made : ∀ e ∈ s.issued, e.made
  own : ∀ e ∈ s.issued, ∃ gen, s.gens[e.owner]? = some gen ∧
    (e.ms < gen.lastMs ∨ e.ms = gen.lastMs ∧ e.seq ≤ gen.seq)
  taken : ∀ n g since, s.taken n = some (g,since) → since ≤ s.clock ∧
    ∀ e ∈ s.issued, e.number = n → e.owner = g ∨ e.ms < since
  sound : ∀ gen ∈ s.gens, gen.sound

section Moves
variable (s : State)

inductive Does : Action → State → Prop where
  | tick (d : Nat) : Does (.tick d) {s with clock := s.clock + d}
  | new (cfg : Config) : Does (.new cfg) {s with
      gens := s.gens ++ [⟨cfg,0,0,0,if cfg.valid then .leasing 0 else .failed,.no⟩]}
  | takes {g gen n reply} (found : s.gens[g]? = some gen) (tries : gen.tries = some n)
      (free : get s.keys s.clock n = none) (ran : reply.ran = true) (keys : Store Nat Nat) :
      Does (.setNX g reply) ({s with keys := keys,taken := Function.update s.taken n (some (g,s.clock))}.setGen
        g (tried gen reply false))
  | next {g gen ms seq} (found : s.gens[g]? = some gen) (parts : next s.clock gen = some (ms,seq))
      (ready : gen.point.ready = true) : Does (.next g) {s.setGen g {gen with lastMs := ms,seq := seq} with
        issued := s.issued ++ [⟨compose gen.cfg ms gen.number seq,g,gen.cfg,ms,gen.number,seq⟩]}
  | other {a g gen gen' keys} (found : s.gens[g]? = some gen)
      (same : gen'.lastMs = gen.lastMs ∧ gen'.seq = gen.seq)
      (sound : gen.sound → gen'.sound) : Does a ({s with keys := keys}.setGen g gen')

end Moves

variable {s t : State} {a : Action} {g : Nat} {gen gen' : Generator} {reply : Reply}

theorem furtherSound {n : Nat} {again : Nat → Point} {none : Point} (gets : ∀ m, m ≤ gen.cfg.maxInstance →
    ({gen with point := again m} : Generator).sound) (ends : ({gen with point := none} : Generator).sound) :
    ({gen with point := further gen.cfg n again none} : Generator).sound := by
  unfold further
  split
  · rename_i more
    exact gets (n + 1) more
  · exact ends

theorem triedSound {taken : Bool} (sound : gen.sound) : (tried gen reply taken).sound := by
  obtain ⟨valid,number,within⟩ := sound
  have idle : gen.tries.isSome = true → ({gen with point := .idle} : Generator).sound := by
    intro tries
    refine ⟨.inr (valid.resolve_left ?_),number,?_⟩
    · intro failed
      simp [Generator.tries,failed] at tries
    · rintro n (same | same) <;> cases same
  have fails : ({gen with point := .failed} : Generator).sound :=
    ⟨.inl rfl,number,by rintro n (same | same) <;> cases same⟩
  cases point : gen.point <;> simp only [tried,point]
  case leasing n =>
    have ok := valid.resolve_left (by rw [point]; exact Point.noConfusion)
    have here := within n (.inl (by simp only [Generator.tries,point]))
    split
    · exact fails
    · split
      · exact furtherSound (fun m le => ⟨.inr ok,number,by rintro n (same | same) <;> cases same; exact le⟩) fails
      · exact ⟨.inr ok,here,by rintro n (same | same) <;> cases same⟩
  case searching n =>
    have ok := valid.resolve_left (by rw [point]; exact Point.noConfusion)
    have here := within n (.inl (by simp only [Generator.tries,point]))
    have idles := idle (by simp only [Generator.tries,point,Option.isSome_some])
    split
    · exact idles
    · split
      · exact furtherSound (fun m le => ⟨.inr ok,number,by rintro n (same | same) <;> cases same; exact le⟩) idles
      · exact ⟨.inr ok,number,by rintro n (same | same) <;> cases same; exact here⟩
  case retake =>
    have ok := valid.resolve_left (by rw [point]; exact Point.noConfusion)
    split
    · exact ⟨.inr ok,number,by rintro n (same | same) <;> cases same; exact Nat.zero_le _⟩
    · exact idle (by simp only [Generator.tries,point,Option.isSome_some])
  all_goals exact ⟨valid,number,within⟩

theorem triedSame {taken : Bool} : (tried gen reply taken).lastMs = gen.lastMs ∧
    (tried gen reply taken).seq = gen.seq := by
  unfold tried
  split
  · split
    · exact ⟨rfl,rfl⟩
    · split <;> exact ⟨rfl,rfl⟩
  · split
    · exact ⟨rfl,rfl⟩
    · split <;> exact ⟨rfl,rfl⟩
  · split <;> exact ⟨rfl,rfl⟩
  · exact ⟨rfl,rfl⟩

theorem stepSound {p : Point} {c : Closing} (sound : gen.sound) (working : gen.point ≠ .failed)
    (plain : p = .idle ∨ p = .renew ∨ p = .retake ∨ p = .stopped ∨ p = .crashed) :
    ({gen with point := p,closing := c} : Generator).sound := by
  obtain ⟨valid,number,-⟩ := sound
  refine ⟨.inr (valid.resolve_left working),number,?_⟩
  rcases plain with rfl | rfl | rfl | rfl | rfl <;> rintro n (same | same) <;> cases same
  exact number

theorem stepDoes (one : step s a = some t) : Does s a t := by
  cases a <;> simp only [step,bind,Option.bind_eq_some_iff,Option.some.injEq] at one
  case tick d => subst one; exact .tick d
  case new cfg => subst one; exact .new cfg
  case setNX g reply =>
    obtain ⟨gen,found,n,tries,rfl⟩ := one
    cases free : get s.keys s.clock n with
    | some owner =>
      simp only [Option.isSome_some,Bool.true_eq_false,and_false,if_false]
      exact .other found triedSame triedSound
    | none =>
      simp only [Option.isSome_none,and_true]
      split
      · rename_i ran
        exact .takes found tries free ran _
      · exact .other found triedSame triedSound
  case fire g =>
    obtain ⟨gen,found,last⟩ := one
    split at last <;> try contradiction
    rename_i here
    cases Option.some.inj last
    exact .other found ⟨rfl,rfl⟩ (fun sound => stepSound sound (by rw [here]; exact Point.noConfusion)
      (.inr (.inl rfl)))
  case renew g reply =>
    obtain ⟨gen,found,last⟩ := one
    split at last <;> try contradiction
    rename_i here
    have working : gen.point ≠ .failed := by rw [here]; exact Point.noConfusion
    cases Option.some.inj last
    have sound : gen.sound → ({gen with point := if reply = .ok ∧
        (expireIf s.keys s.clock gen.number g leaseTTL).2 = false then .retake else .idle} :
        Generator).sound := by
      intro sound
      split
      · exact stepSound sound working (.inr (.inr (.inl rfl)))
      · exact stepSound sound working (.inl rfl)
    split
    · exact .other found ⟨rfl,rfl⟩ sound
    · exact .other found ⟨rfl,rfl⟩ sound
  case move g =>
    obtain ⟨gen,found,last⟩ := one
    split at last <;> try contradiction
    rename_i n here
    cases Option.some.inj last
    refine .other found ⟨rfl,rfl⟩ (fun ⟨valid,_,within⟩ => ?_)
    refine ⟨.inr (valid.resolve_left (by rw [here]; exact Point.noConfusion)),within n (.inr here),?_⟩
    rintro n (same | same) <;> cases same
  case next g =>
    obtain ⟨gen,found,⟨ms,seq⟩,parts,last⟩ := one
    split at last <;> try contradiction
    rename_i ready
    cases Option.some.inj last
    exact .next found parts ready
  case close g =>
    obtain ⟨gen,found,last⟩ := one
    split at last <;> try contradiction
    split at last <;> try contradiction
    all_goals
      cases Option.some.inj last
      exact .other found ⟨rfl,rfl⟩ (fun sound => sound)
  case stop g =>
    obtain ⟨gen,found,last⟩ := one
    split at last <;> try contradiction
    rename_i both
    cases Option.some.inj last
    exact .other found ⟨rfl,rfl⟩ (fun sound => stepSound sound (by rw [both.1]; exact Point.noConfusion)
      (.inr (.inr (.inr (.inl rfl)))))
  case release g reply =>
    obtain ⟨gen,found,last⟩ := one
    split at last <;> try contradiction
    cases Option.some.inj last
    split
    · exact .other found ⟨rfl,rfl⟩ (fun sound => sound)
    · exact .other found ⟨rfl,rfl⟩ (fun sound => sound)
  case crash g =>
    obtain ⟨gen,found,last⟩ := one
    split at last <;> try contradiction
    rename_i working
    cases Option.some.inj last
    refine .other found ⟨rfl,rfl⟩ (fun sound => stepSound sound ?_ (.inr (.inr (.inr (.inr rfl)))))
    intro failed
    simp [Generator.tries,failed,Point.ready] at working

theorem nextParts {now ms seq : Nat} (parts : next now gen = some (ms,seq)) :
    now ≤ ms ∧ seq ≤ gen.cfg.maxSeq ∧ (gen.lastMs < ms ∨ gen.lastMs = ms ∧ gen.seq < seq) := by
  simp only [next] at parts
  split at parts
  · rename_i same
    split at parts <;> try contradiction
    rename_i room
    cases Option.some.inj parts
    exact ⟨by omega,room,.inr ⟨same.symm,by omega⟩⟩
  · rename_i later
    cases Option.some.inj parts
    exact ⟨by omega,Nat.zero_le _,.inl (by omega)⟩

section Apart
variable {gens : List Generator}

theorem ownKept (inv : Apart s) (found : s.gens[g]? = some gen)
    (grows : gen.lastMs < gen'.lastMs ∨ gen.lastMs = gen'.lastMs ∧ gen.seq ≤ gen'.seq) :
    ∀ e ∈ s.issued, ∃ now, (s.gens.set g gen')[e.owner]? = some now ∧
      (e.ms < now.lastMs ∨ e.ms = now.lastMs ∧ e.seq ≤ now.seq) := by
  intro e mem
  obtain ⟨old,there,behind⟩ := inv.own e mem
  by_cases same : g = e.owner
  · subst same
    cases Option.some.inj (found.symm.trans there)
    exact ⟨gen',List.getElem?_set_self (List.getElem?_eq_some_iff.mp found).1,by omega⟩
  · exact ⟨old,by rw [List.getElem?_set_ne same,there],behind⟩

theorem soundKept (all : ∀ now ∈ gens, now.sound) (sound : gen'.sound) :
    ∀ now ∈ gens.set g gen', now.sound := by
  intro now mem
  rcases List.mem_or_eq_of_mem_set mem with old | rfl
  · exact all now old
  · exact sound

theorem sameTime (same : gen'.lastMs = gen.lastMs ∧ gen'.seq = gen.seq) :
    gen.lastMs < gen'.lastMs ∨ gen.lastMs = gen'.lastMs ∧ gen.seq ≤ gen'.seq :=
  .inr ⟨same.1.symm,Nat.le_of_eq same.2.symm⟩

theorem sureNext (sure : Sure s (.next g)) (found : s.gens[g]? = some gen) :
    (∃ since, s.taken gen.number = some (g,since)) ∧
      ∀ e ∈ s.issued, e.ms < s.clock ∨ e.cfg.bits = gen.cfg.bits := by
  simp only [Sure,Idx.sure,found,Option.all_some,Bool.and_eq_true,Option.any_eq_true,beq_iff_eq,List.all_eq_true,
    Bool.or_eq_true,decide_eq_true_eq] at sure
  obtain ⟨⟨⟨owner,since⟩,taken,mine⟩,splits⟩ := sure
  cases mine
  exact ⟨⟨since,taken⟩,splits⟩

theorem readyValid (inv : Apart s) (found : s.gens[g]? = some gen) (ready : gen.point.ready = true) :
    gen.cfg.valid = true :=
  (inv.sound gen (List.mem_of_getElem? found)).1.resolve_left (fun failed => by simp [Point.ready,failed] at ready)

theorem nextNew (inv : Apart s) (sure : Sure s (.next g)) (found : s.gens[g]? = some gen)
    {ms seq : Nat} (parts : next s.clock gen = some (ms,seq)) (ready : gen.point.ready = true) :
    ∀ e ∈ s.issued, e.id ≠ compose gen.cfg ms gen.number seq := by
  intro e mem same
  obtain ⟨now,short,later⟩ := nextParts parts
  obtain ⟨id,valid',inst',short'⟩ := inv.made e mem
  obtain ⟨-,number,-⟩ := inv.sound gen (List.mem_of_getElem? found)
  have valid := readyValid inv found ready
  obtain ⟨⟨since,taken⟩,splits⟩ := sureNext sure found
  have equal := id.symm.trans same
  have moment := composeTime valid' inst' short' valid number short equal
  have split := (splits e mem).resolve_left (by omega)
  obtain ⟨bits,insts,seqs⟩ := splitSame split
  have equal : compose gen.cfg e.ms e.number e.seq = compose gen.cfg ms gen.number seq := by
    simpa only [compose,bits] using equal
  obtain ⟨-,numbers,sequence⟩ := composeApart valid (insts ▸ inst') (seqs ▸ short') number short equal
  obtain ⟨past,others⟩ := inv.taken gen.number g since taken
  rcases others e mem numbers with own | before
  · obtain ⟨old,there,behind⟩ := inv.own e mem
    rw [own] at there
    cases Option.some.inj (found.symm.trans there)
    omega
  · omega

theorem uniqueAfter (inv : Apart s) (sure : Sure s a) (does : Does s a t) : Unique t := by
  cases does with
  | next found parts ready =>
    have new := nextNew inv sure found parts ready
    simp only [Unique,List.map_append,List.map_cons,List.map_nil]
    refine List.Nodup.append inv.unique (List.nodup_singleton _) (fun id old last => ?_)
    obtain ⟨e,mem,rfl⟩ := List.mem_map.mp old
    exact new e mem (List.mem_singleton.mp last)
  | _ => exact inv.unique

theorem madeAfter (inv : Apart s) (does : Does s a t) :
    ∀ e ∈ t.issued, e.made := by
  cases does with
  | next found parts ready =>
    obtain ⟨-,number,-⟩ := inv.sound _ (List.mem_of_getElem? found)
    intro e mem
    rcases List.mem_append.mp mem with old | last
    · exact inv.made e old
    · cases List.mem_singleton.mp last
      exact ⟨rfl,readyValid inv found ready,number,(nextParts parts).2.1⟩
  | _ => exact inv.made

theorem ownAfter (inv : Apart s) (does : Does s a t) :
    ∀ e ∈ t.issued, ∃ gen, t.gens[e.owner]? = some gen ∧
      (e.ms < gen.lastMs ∨ e.ms = gen.lastMs ∧ e.seq ≤ gen.seq) := by
  cases does with
  | tick d => exact inv.own
  | new =>
    intro e mem
    obtain ⟨gen,there,behind⟩ := inv.own e mem
    have short := (List.getElem?_eq_some_iff.mp there).1
    exact ⟨gen,by rw [List.getElem?_append_left short,there],behind⟩
  | takes found => exact ownKept inv found (sameTime triedSame)
  | next found parts ready =>
    obtain ⟨-,-,later⟩ := nextParts parts
    have place := (List.getElem?_eq_some_iff.mp found).1
    intro e mem
    rcases List.mem_append.mp mem with old | last
    · exact ownKept inv found (by simp only; omega) e old
    · cases List.mem_singleton.mp last
      exact ⟨_,List.getElem?_set_self place,.inr ⟨rfl,Nat.le_refl _⟩⟩
  | other found same sound => exact ownKept inv found (sameTime same)

theorem takenAfter (inv : Apart s) (sure : Sure s a) (does : Does s a t) {n h since : Nat}
    (taken : t.taken n = some (h,since)) :
    since ≤ t.clock ∧ ∀ e ∈ t.issued, e.number = n → e.owner = h ∨ e.ms < since := by
  cases does with
  | tick d =>
    obtain ⟨past,others⟩ := inv.taken n h since taken
    exact ⟨Nat.le_add_right_of_le past,others⟩
  | new => exact inv.taken n h since taken
  | @takes g gen m reply found tries free ran keys =>
    by_cases same : n = m
    · subst same
      simp only [State.setGen,Function.update_self,Option.some.injEq,Prod.mk.injEq] at taken
      obtain ⟨rfl,rfl⟩ := taken
      refine ⟨Nat.le_refl _,fun e mem number => ?_⟩
      simp only [Sure,Idx.sure,ran,found,Option.all_some,tries,free,Bool.not_true,Option.isSome_none,Bool.false_or,
        List.all_eq_true,Bool.or_eq_true,bne_iff_ne,beq_iff_eq,decide_eq_true_eq] at sure
      rcases sure e mem with (other | own) | before
      · exact absurd number other
      · exact .inl own
      · exact .inr before
    · simp only [State.setGen,Function.update_of_ne same] at taken
      exact inv.taken n h since taken
  | @next g gen ms seq found parts ready =>
    obtain ⟨past,others⟩ := inv.taken n h since taken
    refine ⟨past,fun e mem number => ?_⟩
    rcases List.mem_append.mp mem with old | last
    · exact others e old number
    · cases List.mem_singleton.mp last
      subst number
      obtain ⟨⟨_,holds⟩,-⟩ := sureNext sure found
      cases Option.some.inj (holds.symm.trans taken)
      exact .inl rfl
  | other => exact inv.taken n h since taken

theorem soundAfter (inv : Apart s) (does : Does s a t) : ∀ gen ∈ t.gens, gen.sound := by
  cases does with
  | tick d => exact inv.sound
  | new cfg =>
    intro gen mem
    rcases List.mem_append.mp mem with old | new
    · exact inv.sound gen old
    · cases List.mem_singleton.mp new
      cases valid : cfg.valid with
      | true => exact ⟨.inr valid,Nat.zero_le _,by rintro n (same | same) <;> cases same; exact Nat.zero_le _⟩
      | false => exact ⟨.inl rfl,Nat.zero_le _,by rintro n (same | same) <;> cases same⟩
  | takes found => exact soundKept inv.sound (triedSound (inv.sound _ (List.mem_of_getElem? found)))
  | @next g gen ms seq found => exact soundKept inv.sound (inv.sound gen (List.mem_of_getElem? found))
  | other found same sound => exact soundKept inv.sound (sound (inv.sound _ (List.mem_of_getElem? found)))

theorem apartStep (inv : Apart s) (sure : Sure s a) (one : step s a = some t) : Apart t where
  unique := uniqueAfter inv sure (stepDoes one)
  made := madeAfter inv (stepDoes one)
  own := ownAfter inv (stepDoes one)
  taken _ _ _ taken := takenAfter inv sure (stepDoes one) taken
  sound := soundAfter inv (stepDoes one)

end Apart

theorem initApart (clock : Nat) : Apart (State.init clock) where
  unique := List.nodup_nil
  made _ mem := nomatch mem
  own _ mem := nomatch mem
  taken _ _ _ taken := nomatch taken
  sound _ mem := nomatch mem

theorem idsUnique (clock : Nat) (as : List Action) (s : State)
    (sure : Along step Sure (State.init clock) as)
    (ok : run step (State.init clock) as = some s) : Unique s :=
  (runKeeps apartStep (initApart clock) sure ok).unique

def standard : Config := ⟨0⟩

def handedOver : List Action :=
  [.new standard,.setNX 0 .ok,.next 0,.next 0,.new ⟨5⟩,.setNX 1 .ok,.setNX 1 .ok,.next 1,
    .tick 30000,.fire 0,.renew 0 .ok,.next 0,.close 0,.stop 0,.release 0 .ok,
    .tick 1,.new standard,.setNX 2 .ok,.next 2,.next 1,.new ⟨3⟩,.setNX 3 .ok,.setNX 3 .ok,.setNX 3 .ok,
    .tick 1,.next 3,.tick 1,.next 1]

theorem handedOverUnique : ∃ s, run step (State.init 1000) handedOver = some s ∧
    s.issued.map (fun e => (e.owner,e.ms,e.number,e.seq)) =
      [(0,1000,0,0),(0,1000,0,1),(1,1000,1,0),(0,31000,0,0),(2,31001,0,0),(1,31001,1,0),
        (3,31002,2,0),(1,31003,1,0)] ∧ Unique s := by
  have facts : (run step (State.init 1000) handedOver).map
      (fun s => s.issued.map (fun e => (e.owner,e.ms,e.number,e.seq))) =
      some [(0,1000,0,0),(0,1000,0,1),(1,1000,1,0),(0,31000,0,0),(2,31001,0,0),(1,31001,1,0),
        (3,31002,2,0),(1,31003,1,0)] := by
    decide
  obtain ⟨s,ok,issued⟩ := Option.map_eq_some_iff.mp facts
  exact ⟨s,ok,issued,idsUnique 1000 handedOver s (by decide) ok⟩

/- The first replica cannot reach Redis for ninety seconds, its lease lapses, a second one
takes the number, and both go on making ids. -/
def lapsed : List Action :=
  [.new standard,.setNX 0 .ok,.tick 30000,.fire 0,.renew 0 .failed,.tick 30000,.fire 0,.renew 0 .failed,
    .tick 30000,.fire 0,.renew 0 .failed,.new standard,.setNX 1 .ok,.next 0,.next 1]

theorem idTwice : ¬ ∀ clock as s, run step (State.init clock) as = some s → Unique s := by
  intro unique
  have facts : (run step (State.init 1000) lapsed).map (fun s => s.issued.map Issue.id) =
      some [372736000,372736000] := by decide
  obtain ⟨s,ok,ids⟩ := Option.map_eq_some_iff.mp facts
  have apart := unique 1000 lapsed s ok
  rw [Unique,ids] at apart
  revert apart
  decide

end DevkitCommon.Idx
