import DevkitCommon.Lib.JSON
import DevkitCommon.Lib.Machine
import DevkitCommon.Lib.PHC
import Mathlib

/-! Passwords as argon2id hashes whose parameters travel with them, and the slots that bound how many are
hashed at one time. argon2 itself is a parameter: nothing where it panics. -/
namespace DevkitCommon.Authx.Password
open JSON (bytes)
open Machine PHC

def argonTime : Nat := 3
def argonMemory : Nat := 64*1024
def argonThreads : Nat := 2
def argonKeyLen : Nat := 32
def argonMaxMemory : Nat := 256*1024

structure Params where
  time : Nat
  memory : Nat
  threads : Nat
  keyLen : Nat
  deriving DecidableEq

def ownParams : Params := ⟨argonTime,argonMemory,argonThreads,argonKeyLen⟩

abbrev IDKey := JSON.Bytes → JSON.Bytes → Params → Option JSON.Bytes

def numbers : List (Words.Text × Nat) := [("m=".toList,32),(",t=".toList,32),(",p=".toList,8)]

def ownNumbers : List (Words.Text × Nat × Nat) :=
  [("m=".toList,32,argonMemory),(",t=".toList,32,argonTime),(",p=".toList,8,argonThreads)]

def phcString (salt key : JSON.Bytes) : Words.Text :=
  ['$'].intercalate [[],"argon2id".toList,"v=19".toList,print ownNumbers,encodeRaw salt,encodeRaw key]

def hashPassword (idKey : IDKey) (salt : JSON.Bytes) (pw : String) : Option Words.Text :=
  (idKey (bytes pw) salt ownParams).map (phcString salt)

structure Stored where
  salt : JSON.Bytes
  want : JSON.Bytes
  params : Params
  deriving DecidableEq

/- What VerifyPasswordHash reads of a hash before it computes anything: nothing of a malformed one. A number
of passes of zero is not refused here. -/
def stored (phc : Words.Text) : Option Stored :=
  match phc.splitOn '$' with
  | [_,name,_,params,salt,key] =>
    if name = "argon2id".toList then
      match scan numbers params with
      | some [m,t,p] =>
        if m > argonMaxMemory ∨ t > 10 ∨ p = 0 then none
        else do
          let salt ← decodeRaw salt
          let want ← decodeRaw key
          some ⟨salt,want,⟨t,m,p,want.length%2^32⟩⟩
      | _ => none
    else none
  | _ => none

def verifyPasswordHash (idKey : IDKey) (phc : Words.Text) (pw : String) : Option Bool :=
  match stored phc with
  | none => some false
  | some s => (idKey (bytes pw) s.salt s.params).map (fun got => got == s.want)

def Sized (idKey : IDKey) : Prop := ∀ pw salt params key, idKey pw salt params = some key → key.length = params.keyLen

section Format

theorem ownScanned : scan numbers (print ownNumbers) = some [argonMemory,argonTime,argonThreads] := by
  have named : ∀ f ∈ ownNumbers, ∃ c more, f.1 = c::more ∧ c.isDigit = false := by
    simp only [ownNumbers,List.forall_mem_cons]
    exact ⟨⟨'m',_,rfl,by decide⟩,⟨',',_,rfl,by decide⟩,⟨',',_,rfl,by decide⟩,fun _ mem => absurd mem List.not_mem_nil⟩
  have small : ∀ f ∈ ownNumbers, f.2.2 < 2^f.2.1 := by decide +kernel
  exact scanPrinted named small

theorem rawDollar (bs : JSON.Bytes) : '$' ∉ encodeRaw bs := by
  intro mem
  obtain ⟨n,small,same⟩ := encodeLetters bs '$' mem
  have apart : ∀ n < 64, '$' ≠ Text.letter n := by decide +kernel
  exact apart n small same

theorem storedHash {salt key : JSON.Bytes} (sized : key.length = argonKeyLen) :
    stored (phcString salt key) = some ⟨salt,key,ownParams⟩ := by
  have fields : (phcString salt key).splitOn '$' =
      [[],"argon2id".toList,"v=19".toList,print ownNumbers,encodeRaw salt,encodeRaw key] := by
    refine List.splitOn_intercalate '$' ?_ (by simp)
    simp only [List.forall_mem_cons]
    exact ⟨by decide,by decide,by decide,by decide,rawDollar salt,rawDollar key,fun _ mem => absurd mem List.not_mem_nil⟩
  have within : ¬ (argonMemory > argonMaxMemory ∨ argonTime > 10 ∨ argonThreads = 0) := by decide
  have short : key.length%2^32 = argonKeyLen := by
    rw [sized]
    rfl
  simp only [stored,fields,if_true,ownScanned,if_neg within,decodeEncodeRaw,bind,Option.bind_some,short]
  rfl

theorem storedWithin {phc : Words.Text} {s : Stored} (read : stored phc = some s) :
    s.params.memory ≤ argonMaxMemory ∧ s.params.time ≤ 10 ∧ s.params.threads ≠ 0 := by
  unfold stored at read
  split at read <;> try contradiction
  split at read <;> try contradiction
  split at read <;> try contradiction
  split at read <;> try contradiction
  rename_i within
  simp only [bind,Option.bind_eq_some_iff] at read
  obtain ⟨salt,_,want,_,last⟩ := read
  cases Option.some.inj last
  exact ⟨by simp only; omega,by simp only; omega,by simp only; omega⟩

variable {idKey : IDKey} {salt : JSON.Bytes} {pw : String} {phc : Words.Text}

theorem hashStored (sized : Sized idKey) (hashed : hashPassword idKey salt pw = some phc) :
    ∃ key, idKey (bytes pw) salt ownParams = some key ∧ stored phc = some ⟨salt,key,ownParams⟩ := by
  obtain ⟨key,computed,rfl⟩ := Option.map_eq_some_iff.mp hashed
  exact ⟨key,computed,storedHash (sized _ _ _ _ computed)⟩

theorem hashedVerifies (sized : Sized idKey) (hashed : hashPassword idKey salt pw = some phc) :
    verifyPasswordHash idKey phc pw = some true ∧
      ∀ other, verifyPasswordHash idKey phc other = some true ↔
        idKey (bytes other) salt ownParams = idKey (bytes pw) salt ownParams := by
  obtain ⟨key,computed,read⟩ := hashStored sized hashed
  have matched (other : String) : verifyPasswordHash idKey phc other = some true ↔
      idKey (bytes other) salt ownParams = some key := by
    simp only [verifyPasswordHash,read,Option.map_eq_some_iff,beq_iff_eq]
    exact ⟨fun ⟨_,got,same⟩ => same ▸ got,fun got => ⟨key,got,rfl⟩⟩
  exact ⟨(matched pw).mpr computed,fun other => by rw [matched,computed]⟩

def seedSalt : JSON.Bytes := [0x9F,0xC7,0xC3,0x50,0x95,0xEF,0x12,0x4B,0xB2,0x20,0x84,0x8A,0xCF,0x71,0xA9,0xD4]

def seedKey : JSON.Bytes :=
  [0x4E,0xF4,0x6F,0x20,0x89,0x38,0x54,0xE1,0x91,0xF9,0xD3,0x41,0x68,0xF8,0x43,0xA8,0x73,0xC5,0x05,0x53,0x56,0xBD,
    0xBD,0x75,0x57,0xA5,0x06,0xB2,0xB1,0x86,0x2D,0xE1]

def seed : Words.Text :=
  "$argon2id$v=19$m=65536,t=3,p=2$n8fDUJXvEkuyIISKz3Gp1A$TvRvIIk4VOGR+dNBaPhDqHPFBVNWvb11V6UGsrGGLeE".toList

def seeded : IDKey := fun pw salt params =>
  if params.time = 0 ∨ params.threads = 0 ∨ params.keyLen = 0 then none
  else if pw = bytes "admin123456" ∧ salt = seedSalt ∧ params = ownParams then some seedKey
  else some (List.replicate params.keyLen 0)

theorem seededSized : Sized seeded := by
  intro pw salt params key computed
  unfold seeded at computed
  split at computed <;> try contradiction
  split at computed
  · rename_i own
    cases Option.some.inj computed
    rw [own.2.2]
    rfl
  · cases Option.some.inj computed
    exact List.length_replicate

theorem seedMatches : verifyPasswordHash seeded seed "admin123456" = some true ∧
    verifyPasswordHash seeded seed "admin12345" ≠ some true := by
  have hashed : hashPassword seeded seedSalt "admin123456" = some seed := by decide +kernel
  have verified := hashedVerifies seededSized hashed
  exact ⟨verified.1,fun same => absurd ((verified.2 "admin12345").mp same) (by decide +kernel)⟩

end Format
section Slots

inductive Call where
  | hash (salt : JSON.Bytes) (pw : String)
  | verify (phc : Words.Text) (pw : String)
  deriving DecidableEq

inductive Answer where
  | hashed (phc : Words.Text)
  | matched (yes : Bool)
  | panicked
  deriving DecidableEq

def Call.asks : Call → Option (JSON.Bytes × JSON.Bytes × Params)
  | .hash salt pw => some (bytes pw,salt,ownParams)
  | .verify phc pw => (stored phc).map (fun s => (bytes pw,s.salt,s.params))

def Call.finish : Call → Option JSON.Bytes → Answer
  | _, none => .panicked
  | .hash salt _, some key => .hashed (phcString salt key)
  | .verify phc _, some got => .matched ((stored phc).any (fun s => got == s.want))

inductive Point where
  | waiting
  | computing
  | answered (a : Answer)
  deriving DecidableEq

structure Started where
  call : Call
  point : Point
  deriving DecidableEq

structure State where
  slots : Nat
  started : List Started
  deriving DecidableEq

inductive Action where
  | call (c : Call)
  | takes (i : Nat)
  | computes (i : Nat)

def State.set (s : State) (i : Nat) (x : Started) : State := {s with started := s.started.set i x}

/- The slot is given back also where argon2 panics. -/
def step (idKey : IDKey) (s : State) : Action → Option State
  | .call c => some {s with started := s.started ++ [⟨c,if c.asks.isSome then .waiting else .answered (.matched false)⟩]}
  | .takes i => do
    let x ← s.started[i]?
    if x.point = .waiting ∧ s.slots < 2 then some {s.set i ⟨x.call,.computing⟩ with slots := s.slots+1} else none
  | .computes i => do
    let x ← s.started[i]?
    let (pw,salt,params) ← x.call.asks
    if x.point = .computing then
      some {s.set i ⟨x.call,.answered (x.call.finish (idKey pw salt params))⟩ with slots := s.slots-1}
    else none

def start : State := ⟨0,[]⟩

def Started.computing (x : Started) : Bool := x.point = .computing

def Started.memory (x : Started) : Nat :=
  if x.computing then x.call.asks.elim 0 (fun asked => asked.2.2.memory) else 0

def State.memory (s : State) : Nat := (s.started.map Started.memory).sum

def Call.result (idKey : IDKey) : Call → Answer
  | .hash salt pw => (hashPassword idKey salt pw).elim .panicked .hashed
  | .verify phc pw => (verifyPasswordHash idKey phc pw).elim .panicked .matched

def Call.Own (idKey : IDKey) : Call → Prop
  | .hash _ _ => True
  | .verify phc _ => ∃ salt pw, hashPassword idKey salt pw = some phc

variable {idKey : IDKey} {s t : State} {a : Action}

theorem finishResult {c : Call} {pw salt : JSON.Bytes} {params : Params} (asks : c.asks = some (pw,salt,params)) :
    c.finish (idKey pw salt params) = c.result idKey := by
  cases c with
  | hash salt' pw' =>
    cases Option.some.inj asks
    simp only [Call.result,hashPassword]
    cases idKey (bytes pw') salt ownParams <;> rfl
  | verify phc pw' =>
    obtain ⟨s,read,same⟩ := Option.map_eq_some_iff.mp asks
    cases same
    simp only [Call.result,verifyPasswordHash,read]
    cases idKey (bytes pw') s.salt s.params with
    | none => rfl
    | some got => simp [Call.finish,read]

theorem malformedResult {c : Call} (asks : c.asks = none) : c.result idKey = .matched false := by
  cases c with
  | hash salt pw => cases asks
  | verify phc pw => simp only [Call.result,verifyPasswordHash,Option.map_eq_none_iff.mp asks]; rfl

inductive Does (idKey : IDKey) (s : State) : Action → State → Prop where
  | malformed {c : Call} (asks : c.asks = none) :
      Does idKey s (.call c) {s with started := s.started ++ [⟨c,.answered (.matched false)⟩]}
  | waits {c : Call} {asked : JSON.Bytes × JSON.Bytes × Params} (asks : c.asks = some asked) :
      Does idKey s (.call c) {s with started := s.started ++ [⟨c,.waiting⟩]}
  | takes {i : Nat} {c : Call} (found : s.started[i]? = some ⟨c,.waiting⟩) (room : s.slots < 2) :
      Does idKey s (.takes i) {s.set i ⟨c,.computing⟩ with slots := s.slots+1}
  | computes {i : Nat} {c : Call} (found : s.started[i]? = some ⟨c,.computing⟩) :
      Does idKey s (.computes i) {s.set i ⟨c,.answered (c.result idKey)⟩ with slots := s.slots-1}

theorem stepDoes (one : step idKey s a = some t) : Does idKey s a t := by
  cases a with
  | call c =>
    cases Option.some.inj one
    cases asks : c.asks with
    | none => exact .malformed asks
    | some asked => exact .waits asks
  | takes i =>
    simp only [step,bind,Option.bind_eq_some_iff] at one
    obtain ⟨⟨c,point⟩,found,one⟩ := one
    split at one <;> try contradiction
    rename_i both
    cases Option.some.inj one
    obtain ⟨rfl,room⟩ := both
    exact .takes found room
  | computes i =>
    simp only [step,bind,Option.bind_eq_some_iff] at one
    obtain ⟨⟨c,point⟩,found,⟨pw,salt,params⟩,asks,one⟩ := one
    split at one <;> try contradiction
    rename_i computing
    cases Option.some.inj one
    have here : point = .computing := computing
    subst here
    rw [finishResult asks]
    exact .computes found

structure Kept (idKey : IDKey) (s : State) : Prop where
  counted : s.slots = s.started.countP Started.computing
  within : s.slots ≤ 2
  asking : ∀ x ∈ s.started, x.point = .waiting ∨ x.point = .computing → x.call.asks.isSome
  answers : ∀ x ∈ s.started, ∀ b, x.point = .answered b → b = x.call.result idKey

theorem keptStarts {c : Call} {p : Point} (kept : Kept idKey s) (idle : p ≠ .computing)
    (asking : p = .waiting → c.asks.isSome) (answers : ∀ b, p = .answered b → b = c.result idKey) :
    Kept idKey {s with started := s.started ++ [⟨c,p⟩]} where
  counted := by
    have not : Started.computing ⟨c,p⟩ = false := by simp [Started.computing,idle]
    simp [kept.counted,not]
  within := kept.within
  asking := by
    intro x mem point
    obtain old | new := List.mem_append.mp mem
    · exact kept.asking x old point
    · cases List.mem_singleton.mp new
      exact asking (point.resolve_right idle)
  answers := by
    intro x mem b point
    obtain old | new := List.mem_append.mp mem
    · exact kept.answers x old b point
    · cases List.mem_singleton.mp new
      exact answers b point

theorem keptSet {i : Nat} {c : Call} {p q : Point} {n : Nat} (kept : Kept idKey s) (found : s.started[i]? = some ⟨c,p⟩)
    (counted : n + (Started.computing ⟨c,p⟩).toNat = s.slots + (Started.computing ⟨c,q⟩).toNat) (within : n ≤ 2)
    (asking : q = .waiting ∨ q = .computing → c.asks.isSome) (answers : ∀ b, q = .answered b → b = c.result idKey) :
    Kept idKey {s.set i ⟨c,q⟩ with slots := n} where
  counted := by
    have moved := countMoved (q := Started.computing) (x := ⟨c,q⟩) found
    have before := kept.counted
    simp only [State.set]
    omega
  within := within
  asking := by
    intro x mem point
    obtain old | rfl := List.mem_or_eq_of_mem_set mem
    · exact kept.asking x old point
    · exact asking point
  answers := by
    intro x mem b point
    obtain old | rfl := List.mem_or_eq_of_mem_set mem
    · exact kept.answers x old b point
    · exact answers b point

theorem keptStep (kept : Kept idKey s) (one : step idKey s a = some t) : Kept idKey t := by
  cases stepDoes one with
  | malformed asks =>
    refine keptStarts kept (by simp) (fun point => nomatch point) (fun b point => ?_)
    cases point
    exact (malformedResult asks).symm
  | waits asks => exact keptStarts kept (by simp) (fun _ => by rw [asks]; rfl) (fun b point => nomatch point)
  | takes found room =>
    have asking := kept.asking _ (List.mem_of_getElem? found) (.inl rfl)
    exact keptSet kept found rfl (by omega) (fun _ => asking) (fun b point => nomatch point)
  | @computes i c found =>
    have asking := kept.asking _ (List.mem_of_getElem? found) (.inr rfl)
    have one : 0 < s.started.countP Started.computing :=
      List.countP_pos_iff.mpr ⟨_,List.mem_of_getElem? found,rfl⟩
    have counted := kept.counted
    have within := kept.within
    refine keptSet kept found ?_ (by omega) (fun _ => asking) (fun b point => ?_)
    · have busy : Started.computing ⟨c,.computing⟩ = true := rfl
      have done : Started.computing ⟨c,.answered (c.result idKey)⟩ = false := rfl
      simp only [busy,done,Bool.toNat_true,Bool.toNat_false]
      omega
    · cases point
      rfl

theorem reachedKept (reached : Reachable (step idKey) start s) : Kept idKey s :=
  reachableKeeps keptStep ⟨rfl,by decide,fun _ mem => absurd mem List.not_mem_nil,fun _ mem => absurd mem List.not_mem_nil⟩ reached

theorem memoryWithin {l : List Started} {most : Nat} (each : ∀ x ∈ l, x.memory ≤ most) :
    (l.map Started.memory).sum ≤ l.countP Started.computing * most := by
  induction l with
  | nil => simp
  | cons x l ih =>
    obtain ⟨first,rest⟩ := List.forall_mem_cons.mp each
    have later := ih rest
    rw [List.map_cons,List.sum_cons,List.countP_cons]
    split
    · rw [Nat.add_mul]
      omega
    · rename_i idle
      have nothing : x.memory = 0 := by simp [Started.memory,idle]
      rw [nothing,Nat.zero_add,Nat.add_zero]
      exact later

theorem askedWithin {c : Call} {asked : JSON.Bytes × JSON.Bytes × Params} (asks : c.asks = some asked) :
    asked.2.2.memory ≤ argonMaxMemory := by
  cases c with
  | hash salt pw =>
    cases Option.some.inj asks
    exact show argonMemory ≤ argonMaxMemory by decide
  | verify phc pw =>
    obtain ⟨s,read,rfl⟩ := Option.map_eq_some_iff.mp asks
    exact (storedWithin read).1

theorem ownWithin {c : Call} {asked : JSON.Bytes × JSON.Bytes × Params} (sized : Sized idKey) (own : c.Own idKey)
    (asks : c.asks = some asked) : asked.2.2.memory ≤ argonMemory := by
  cases c with
  | hash salt pw =>
    cases Option.some.inj asks
    exact Nat.le_refl _
  | verify phc pw =>
    obtain ⟨salt,pw',hashed⟩ := own
    obtain ⟨key,_,read⟩ := hashStored sized hashed
    obtain ⟨s,again,rfl⟩ := Option.map_eq_some_iff.mp asks
    rw [read] at again
    cases Option.some.inj again
    exact Nat.le_refl _

theorem eachWithin {x : Started} {most : Nat} (asked : ∀ asked, x.call.asks = some asked → asked.2.2.memory ≤ most) :
    x.memory ≤ most := by
  unfold Started.memory
  split
  · cases asks : x.call.asks with
    | none => exact Nat.zero_le _
    | some found => exact asked found asks
  · exact Nat.zero_le _

theorem stepTakes {i : Nat} {c : Call} (found : s.started[i]? = some ⟨c,.waiting⟩) (room : s.slots < 2) :
    step idKey s (.takes i) = some {s.set i ⟨c,.computing⟩ with slots := s.slots+1} := by
  simp only [step,found,bind,Option.bind_some]
  exact if_pos ⟨trivial,room⟩

theorem stepComputes {i : Nat} {c : Call} (found : s.started[i]? = some ⟨c,.computing⟩) (asks : c.asks.isSome) :
    step idKey s (.computes i) = some {s.set i ⟨c,.answered (c.result idKey)⟩ with slots := s.slots-1} := by
  obtain ⟨⟨pw,salt,params⟩,asked⟩ := Option.isSome_iff_exists.mp asks
  simp only [step,found,asked,bind,Option.bind_some,if_true,finishResult asked]

theorem roomAnswered {i : Nat} {c : Call} (found : s.started[i]? = some ⟨c,.waiting⟩) (asks : c.asks.isSome)
    (room : s.slots < 2) :
    ∃ as t, run (step idKey) s as = some t ∧ t.started[i]? = some ⟨c,.answered (c.result idKey)⟩ := by
  have inside : i < s.started.length := (List.getElem?_eq_some_iff.mp found).1
  have busy : (s.set i ⟨c,.computing⟩).started[i]? = some ⟨c,.computing⟩ := List.getElem?_set_self inside
  have still : i < (s.set i ⟨c,.computing⟩).started.length := (List.getElem?_eq_some_iff.mp busy).1
  exact ⟨[.takes i,.computes i],_,runCons.mpr ⟨_,stepTakes found room,runCons.mpr ⟨_,stepComputes busy asks,rfl⟩⟩,
    List.getElem?_set_self still⟩

theorem waitingAnswered {i : Nat} {c : Call} (kept : Kept idKey s) (found : s.started[i]? = some ⟨c,.waiting⟩) :
    ∃ as t, run (step idKey) s as = some t ∧ t.started[i]? = some ⟨c,.answered (c.result idKey)⟩ := by
  have asks := kept.asking _ (List.mem_of_getElem? found) (.inl rfl)
  by_cases room : s.slots < 2
  · exact roomAnswered found asks room
  · have counted := kept.counted
    have within := kept.within
    have busy : 0 < s.started.countP Started.computing := by omega
    obtain ⟨⟨d,point⟩,mem,computing⟩ := List.countP_pos_iff.mp busy
    have here : point = .computing := by simpa [Started.computing] using computing
    subst here
    obtain ⟨j,other⟩ := List.getElem?_of_mem mem
    have apart : i ≠ j := by
      rintro rfl
      rw [found] at other
      cases Option.some.inj other
    let u : State := {s.set j ⟨d,.answered (d.result idKey)⟩ with slots := s.slots-1}
    have freed : step idKey s (.computes j) = some u := stepComputes other (kept.asking _ mem (.inr rfl))
    have still : u.started[i]? = some ⟨c,.waiting⟩ := (List.getElem?_set_ne (Ne.symm apart)).trans found
    obtain ⟨as,t,ok,answered⟩ := roomAnswered still asks (by simp only [u]; omega)
    exact ⟨.computes j::as,t,runCons.mpr ⟨_,freed,ok⟩,answered⟩

theorem hashingBounded (sized : Sized idKey) (reached : Reachable (step idKey) start s) :
    s.slots = s.started.countP Started.computing ∧ s.slots ≤ 2 ∧ s.memory ≤ 2*argonMaxMemory ∧
      ((∀ x ∈ s.started, x.call.Own idKey) → s.memory ≤ 2*argonMemory) ∧
      (∀ x ∈ s.started, ∀ b, x.point = .answered b → b = x.call.result idKey) ∧
      ∀ (i : Nat) (c : Call), s.started[i]? = some ⟨c,.waiting⟩ →
        ∃ as t, run (step idKey) s as = some t ∧ t.started[i]? = some ⟨c,.answered (c.result idKey)⟩ := by
  have kept := reachedKept reached
  have two : s.started.countP Started.computing ≤ 2 := kept.counted ▸ kept.within
  refine ⟨kept.counted,kept.within,?_,fun own => ?_,kept.answers,fun i c found => waitingAnswered kept found⟩
  · have each := memoryWithin (l := s.started) (fun x _ => eachWithin (fun _ asks => askedWithin asks))
    exact each.trans (Nat.mul_le_mul_right _ two)
  · have each := memoryWithin (l := s.started) (fun x mem => eachWithin (fun _ asks => ownWithin sized (own x mem) asks))
    exact each.trans (Nat.mul_le_mul_right _ two)

def seedCall : Call := .verify seed "admin123456"

def burst : State :=
  ⟨2,[⟨seedCall,.computing⟩,⟨seedCall,.waiting⟩,
    ⟨.verify "$argon2id$v=19$m=4194304,t=3,p=2$AAAA$AAAA".toList "admin123456",.answered (.matched false)⟩,
    ⟨seedCall,.computing⟩]⟩

def burstActions : List Action :=
  [.call seedCall,.call seedCall,.takes 0,.call (.verify "$argon2id$v=19$m=4194304,t=3,p=2$AAAA$AAAA".toList "admin123456"),
    .call seedCall,.takes 3]

theorem burstAnswered : burst.memory ≤ 2*argonMaxMemory ∧
    ∃ as t, run (step seeded) burst as = some t ∧ t.started[1]? = some ⟨seedCall,.answered (.matched true)⟩ := by
  have reached : Reachable (step seeded) start burst := ⟨burstActions,by decide +kernel⟩
  obtain ⟨_,_,memory,_,_,turn⟩ := hashingBounded seededSized reached
  have answer : seedCall.result seeded = .matched true := by decide +kernel
  exact ⟨memory,answer ▸ turn 1 seedCall rfl⟩

end Slots
end DevkitCommon.Authx.Password
