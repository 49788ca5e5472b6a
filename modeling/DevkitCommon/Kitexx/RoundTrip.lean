import DevkitCommon.Kitexx.Result
import DevkitCommon.Lib.Pairs

/-! The round trip of a result through its JSON: a value comes back as it was exactly when
every part of it survives, by induction on how it has its type; and into a result only
where Success is a pointer. -/
namespace DevkitCommon.Kitexx
open Text Pairs

section Types
variable (structs : String → Decl)

inductive TypedScalar : Scalar → Value → Prop where
  | bool (b : Bool) : TypedScalar .bool (.bool b)
  | int {bits i} (small : fits bits i = true) : TypedScalar (.int bits) (.int i)
  | double (bits : UInt64) : TypedScalar .double (.double bits)
  | string (s : Bytes) : TypedScalar .string (.string s)

/- A value of a type; a map has a key once. -/
mutual
inductive Typed : GoType → Value → Prop where
  | scalar {s v} (of : TypedScalar s v) : Typed (.scalar s) v
  | absent {s} : Typed (.optional s) .nil
  | optional {s v} (of : TypedScalar s v) : Typed (.optional s) v
  | noBytes : Typed .bytes .nil
  | bytes (b : List UInt8) : Typed .bytes (.binary b)
  | noSlice {t} : Typed (.slice t) .nil
  | slice {t vs} (all : TypedAll t vs) : Typed (.slice t) (.slice vs)
  | noMap {k t} : Typed (.map k t) .nil
  | map {k t es} (all : TypedEntries k t es) : Typed (.map k t) (.map es)
  | noStruct {name} : Typed (.struct name) .nil
  | struct {name vs} (all : TypedFields (structs name).fields vs) : Typed (.struct name) (.struct vs)
inductive TypedAll : GoType → Values → Prop where
  | nil {t} : TypedAll t .nil
  | cons {t v vs} (head : Typed t v) (tail : TypedAll t vs) : TypedAll t (.cons v vs)
inductive TypedEntries : GoType → GoType → Entries → Prop where
  | nil {k t} : TypedEntries k t .nil
  | cons {k t key v es} (name : Typed k key) (fresh : es.has key = false) (head : Typed t v)
      (tail : TypedEntries k t es) : TypedEntries k t (.cons key v es)
inductive TypedFields : List Field → Values → Prop where
  | nil : TypedFields [] .nil
  | cons {f fs v vs} (head : Typed f.type v) (tail : TypedFields fs vs) :
      TypedFields (f::fs) (.cons v vs)
end

def exactScalar : Value → Bool
  | .double bits => finite bits
  | .string s => decide s.IsValidUTF8
  | _ => true

mutual
def exact : GoType → Value → Bool
  | .scalar _,v | .optional _,v => exactScalar v
  | .slice t,.slice vs => exactAll t vs
  | .map k _,.nil => keyed k
  | .map k t,.map es => keyed k && exactEntries t es
  | .struct name,.struct vs => exactFields (structs name).fields vs
  | _,_ => true
def exactAll : GoType → Values → Bool
  | _,.nil => true
  | t,.cons v vs => exact t v && exactAll t vs
def exactEntries : GoType → Entries → Bool
  | _,.nil => true
  | t,.cons k v es => exactScalar k && exact t v && exactEntries t es
def exactFields : List Field → Values → Bool
  | f::fs,.cons v vs =>
    (if f.omitempty && isEmpty f.type v then v == zero f.type else exact f.type v) && exactFields fs vs
  | _,_ => true
end

end Types

section Trips
variable {structs : String → Decl} {s : Scalar} {t k : GoType} {v key : Value} {vs : Values} {es : Entries}
  {f : Field} {fs all : List Field}

theorem textExact {b : Bytes} : (jsonText b).toByteArray = b ↔ b.IsValidUTF8 := by
  constructor
  · intro same
    rw [← same]
    exact (jsonText b).isValidUTF8
  · intro valid
    rw [jsonText,dif_pos valid]
    rfl

theorem scalarTrips (of : TypedScalar s v) :
    (encodeScalar s v).bind (decodeScalar s) = some v ↔ exactScalar v = true := by
  cases of with
  | bool b => simp [encodeScalar,decodeScalar,exactScalar]
  | int small => simp [encodeScalar,decodeScalar,exactScalar,small]
  | double bits =>
    simp only [encodeScalar,exactScalar]
    split <;> rename_i ok <;> simp [decodeScalar,ok]
  | string s => simp [encodeScalar,decodeScalar,exactScalar,textExact]

theorem keyTrips (ok : keyed k = true) (of : Typed structs k key) :
    (encodeKey k key).bind (decodeKey k) = some key ↔ exactScalar key = true := by
  cases of with
  | scalar of =>
    cases of with
    | bool => contradiction
    | double => contradiction
    | int small => simp [encodeKey,decodeKey,exactScalar,parseFormat small]
    | string s => simp [encodeKey,decodeKey,exactScalar,textExact]
  | _ => contradiction

theorem consTrips {p q : Prop} (head : (encode structs t v).bind (decode structs t) = some v ↔ p)
    (tail : (encodeAll structs t vs).bind (decodeAll structs t) = some vs ↔ q) :
    (encodeAll structs t (.cons v vs)).bind (decodeAll structs t) = some (.cons v vs) ↔ p ∧ q := by
  rw [← head,← tail]
  cases one : encode structs t v with
  | none => simp [encodeAll,one]
  | some j =>
    cases rest : encodeAll structs t vs with
    | none => simp [encodeAll,one,rest]
    | some js => simp [encodeAll,decodeAll,one,rest,Option.bind_eq_some_iff]

def Entries.size : Entries → Nat
  | .nil => 0
  | .cons _ _ es => es.size + 1

def Members.size : Members → Nat
  | .nil => 0
  | .cons _ _ ms => ms.size + 1

theorem beforeExact {key' v' : Value} {es' : Entries} (fresh : es.has key = false) (short : es'.size ≤ es.size) :
    es'.before key' v' = .cons key v es ↔ key' = key ∧ v' = v ∧ es' = es := by
  unfold Entries.before
  split
  · rename_i there
    constructor
    · rintro rfl
      simp only [Entries.size] at short
      omega
    · rintro ⟨rfl,rfl,rfl⟩
      rw [fresh] at there
      contradiction
  · simp

theorem encodeSize : ∀ (es : Entries) {ms : Members},
    encodeEntries structs k t es = some ms → ms.size = es.size
  | .nil,ms,written => by
    cases Option.some.inj written
    rfl
  | .cons key v es,ms,written => by
    simp only [encodeEntries,bind,Option.bind_eq_some_iff] at written
    obtain ⟨name,-,j,-,rest,more,last⟩ := written
    cases Option.some.inj last
    exact congrArg (· + 1) (encodeSize es more)

theorem decodeSize : ∀ (ms : Members) {es : Entries},
    decodeEntries structs k t ms = some es → es.size ≤ ms.size
  | .nil,es,read => by
    cases Option.some.inj read
    exact Nat.le_refl _
  | .cons name j ms,es,read => by
    simp only [decodeEntries,bind,Option.bind_eq_some_iff] at read
    obtain ⟨key,-,v,-,rest,more,last⟩ := read
    cases Option.some.inj last
    have short := decodeSize ms more
    unfold Entries.before
    split
    · exact Nat.le_succ_of_le short
    · exact Nat.succ_le_succ short

theorem entryTrips {p q r : Prop} (fresh : es.has key = false)
    (name : (encodeKey k key).bind (decodeKey k) = some key ↔ p)
    (head : (encode structs t v).bind (decode structs t) = some v ↔ q)
    (tail : (encodeEntries structs k t es).bind (decodeEntries structs k t) = some es ↔ r) :
    (encodeEntries structs k t (.cons key v es)).bind (decodeEntries structs k t) = some (.cons key v es) ↔
      (p ∧ q) ∧ r := by
  rw [← name,← head,← tail]
  cases text : encodeKey k key with
  | none => simp [encodeEntries,text]
  | some n =>
    cases one : encode structs t v with
    | none => simp [encodeEntries,text,one]
    | some j =>
      cases rest : encodeEntries structs k t es with
      | none => simp [encodeEntries,text,one,rest]
      | some ms =>
        simp only [encodeEntries,decodeEntries,text,one,rest,bind,Option.bind_some,Option.bind_eq_some_iff,
          Option.some.injEq]
        constructor
        · rintro ⟨key',readKey,v',readOne,es',readRest,joined⟩
          have short := Nat.le_trans (decodeSize ms readRest) (Nat.le_of_eq (encodeSize es rest))
          obtain ⟨rfl,rfl,rfl⟩ := (beforeExact fresh short).mp joined
          exact ⟨⟨readKey,readOne⟩,readRest⟩
        · rintro ⟨⟨readKey,readOne⟩,readRest⟩
          exact ⟨key,readKey,v,readOne,es,readRest,by rw [Entries.before,fresh]; rfl⟩

def Members.names : Members → List String
  | .nil => []
  | .cons name _ ms => name::ms.names

theorem encodeNames : ∀ (fs : List Field) (vs : Values) {ms : Members},
    encodeFields structs fs vs = some ms → ∀ n ∈ ms.names, n ∈ fs.map Field.name
  | [],.nil,ms,written => by
    cases Option.some.inj written
    exact fun _ mem => absurd mem List.not_mem_nil
  | f::fs,.cons v vs,ms,written => by
    intro n mem
    rw [encodeFields] at written
    split at written
    · exact List.mem_cons_of_mem _ (encodeNames fs vs written n mem)
    · simp only [bind,Option.bind_eq_some_iff] at written
      obtain ⟨j,-,rest,more,last⟩ := written
      cases Option.some.inj last
      rcases List.mem_cons.mp mem with rfl | later
      · exact List.mem_cons_self
      · exact List.mem_cons_of_mem _ (encodeNames fs vs more n later)

theorem decodeNames : ∀ (ms : Members) {found : List (String × Value)},
    decodeMembers structs all ms = some found → ∀ n ∈ found.map Prod.fst, n ∈ ms.names
  | .nil,found,read => by
    cases Option.some.inj read
    exact fun _ mem => absurd mem List.not_mem_nil
  | .cons name j ms,found,read => by
    intro n mem
    rw [decodeMembers] at read
    split at read
    · exact List.mem_cons_of_mem _ (decodeNames ms read n mem)
    · simp only [bind,Option.bind_eq_some_iff] at read
      obtain ⟨v,-,rest,more,last⟩ := read
      cases Option.some.inj last
      unfold before at mem
      split at mem
      · exact List.mem_cons_of_mem _ (decodeNames ms more n mem)
      · rcases List.mem_cons.mp mem with rfl | later
        · exact List.mem_cons_self
        · exact List.mem_cons_of_mem _ (decodeNames ms more n later)

theorem buildSkips {found : List (String × Value)} {n : String} (other : n ∉ fs.map Field.name) :
    build fs ((n,v)::found) = build fs found := by
  induction fs with
  | nil => rfl
  | cons f fs ih =>
    simp only [List.map_cons,List.mem_cons,not_or] at other
    simp only [build,ih other.2,List.lookup_cons,beq_false_of_ne (Ne.symm other.1)]

theorem fieldTrips {p q : Prop} (here : all.find? (fun g => g.name = f.name) = some f)
    (fresh : f.name ∉ fs.map Field.name)
    (head : (encode structs f.type v).bind (decode structs f.type) = some v ↔ p)
    (tail : ((encodeFields structs fs vs).bind (decodeMembers structs all)).map (build fs) = some vs ↔ q) :
    ((encodeFields structs (f::fs) (.cons v vs)).bind (decodeMembers structs all)).map (build (f::fs)) =
      some (.cons v vs) ↔ (if f.omitempty && isEmpty f.type v then v = zero f.type else p) ∧ q := by
  rw [← head,← tail]
  have absent : ∀ {ms found}, encodeFields structs fs vs = some ms → decodeMembers structs all ms = some found →
      f.name ∉ found.map Prod.fst := fun written read mem =>
    fresh (encodeNames fs vs written _ (decodeNames _ read _ mem))
  by_cases out : (f.omitempty && isEmpty f.type v) = true
  · simp only [encodeFields,out,if_true]
    cases rest : encodeFields structs fs vs with
    | none => simp
    | some ms =>
      cases read : decodeMembers structs all ms with
      | none => simp [read]
      | some found =>
        simp [read,build,lookupAbsent.mpr (absent rest read),eq_comm]
  · simp only [encodeFields,out,Bool.false_eq_true,if_false]
    cases one : encode structs f.type v with
    | none => simp
    | some j =>
      cases rest : encodeFields structs fs vs with
      | none => simp
      | some ms =>
        cases read : decodeMembers structs all ms with
        | none => simp [decodeMembers,here,read]
        | some found =>
          cases back : decode structs f.type j with
          | none => simp [decodeMembers,here,back]
          | some v' =>
            simp [decodeMembers,here,read,back,before,absent rest read,build,buildSkips fresh]

theorem fieldNamed (distinct : (all.map Field.name).Nodup) (mem : f ∈ all) :
    all.find? (fun g => g.name = f.name) = some f := by
  induction all with
  | nil => exact absurd mem List.not_mem_nil
  | cons g rest ih =>
    simp only [List.map_cons,List.nodup_cons] at distinct
    rcases List.mem_cons.mp mem with rfl | later
    · simp
    · have other : g.name ≠ f.name := fun same => distinct.1 (same ▸ List.mem_map_of_mem later)
      simpa only [List.find?_cons,other,decide_false] using ih distinct.2 later

theorem optionalTrips (of : TypedScalar s v) :
    (encode structs (.optional s) v).bind (decode structs (.optional s)) =
      (encodeScalar s v).bind (decodeScalar s) := by
  cases of with
  | double bits =>
    simp only [encode,encodeScalar]
    split <;> simp [decode]
  | _ => simp [encode,encodeScalar,decode]

theorem plainTrips : (encode structs (.scalar s) v).bind (decode structs (.scalar s)) =
    (encodeScalar s v).bind (decodeScalar s) := by
  have reads : decode structs (.scalar s) = decodeScalar s := funext (fun j => by rw [decode])
  rw [encode,reads]

theorem wrapTrips {α β γ δ : Type} {x : Option α} {f : α → β} {g : β → Option δ} {h : α → Option γ} {wrap : γ → δ}
    {a : γ} (reads : ∀ c, g (f c) = (h c).map wrap) (same : Function.Injective wrap) :
    (x.map f).bind g = some (wrap a) ↔ x.bind h = some a := by
  cases x with
  | none => simp
  | some c =>
    rw [Option.map_some,Option.bind_some,Option.bind_some,reads,Option.map_eq_some_iff]
    constructor
    · rintro ⟨b,read,wrapped⟩
      rw [read,same wrapped]
    · intro read
      exact ⟨a,read,rfl⟩

/- What comes back of a value, by induction on how it has its type. -/
mutual
theorem trips {t : GoType} {v : Value} : Typed structs t v →
    ((encode structs t v).bind (decode structs t) = some v ↔ exact structs t v = true)
  | .scalar of => by
    rw [plainTrips,exact]
    exact scalarTrips of
  | .absent => by simp [encode,decode,exact,exactScalar]
  | .optional of => by
    rw [optionalTrips of,exact]
    exact scalarTrips of
  | .noBytes => by simp [encode,decode,exact]
  | .bytes b => by simp [encode,decode,exact,decodeEncode]
  | .noSlice => by simp [encode,decode,exact]
  | .slice all => by
    rw [encode,wrapTrips (fun js => by rw [decode]) (fun _ _ => Value.slice.inj),tripsAll all,exact]
  | .noMap => by
    rw [encode,exact]
    split <;> simp_all [decode]
  | .map all => by
    rename_i k t es
    rw [encode,exact]
    cases ok : keyed k with
    | false => simp
    | true =>
      rw [if_pos rfl,wrapTrips (fun ms => by rw [decode,if_pos ok]) (fun _ _ => Value.map.inj),
        tripsEntries ok all,Bool.true_and]
  | .noStruct => by simp [encode,decode,exact]
  | .struct all => by
    rename_i name vs
    have here : ∀ f ∈ (structs name).fields,
        (structs name).fields.find? (fun g => g.name = f.name) = some f :=
      fun f mem => fieldNamed (structs name).distinct mem
    have reads : ∀ ms, decode structs (.struct name) (.object ms) =
        ((decodeMembers structs (structs name).fields ms).map (build (structs name).fields)).map .struct := by
      intro ms
      rw [decode,Option.map_map]
      rfl
    rw [encode,wrapTrips reads (fun _ _ => Value.struct.inj),exact,
      ← tripsFields here (structs name).distinct all,Option.map_bind]
    rfl
theorem tripsAll {t : GoType} {vs : Values} : TypedAll structs t vs →
    ((encodeAll structs t vs).bind (decodeAll structs t) = some vs ↔ exactAll structs t vs = true)
  | .nil => by simp [encodeAll,decodeAll,exactAll]
  | .cons head tail => by
    rw [consTrips (trips head) (tripsAll tail),exactAll,Bool.and_eq_true]
theorem tripsEntries {k t : GoType} {es : Entries} (ok : keyed k = true) : TypedEntries structs k t es →
    ((encodeEntries structs k t es).bind (decodeEntries structs k t) = some es ↔
      exactEntries structs t es = true)
  | .nil => by simp [encodeEntries,decodeEntries,exactEntries]
  | .cons name fresh head tail => by
    rw [entryTrips fresh (keyTrips ok name) (trips head) (tripsEntries ok tail),exactEntries,
      Bool.and_eq_true,Bool.and_eq_true]
theorem tripsFields {all fs : List Field} {vs : Values}
    (here : ∀ f ∈ fs, all.find? (fun g => g.name = f.name) = some f) (distinct : (fs.map Field.name).Nodup) :
    TypedFields structs fs vs →
    (((encodeFields structs fs vs).bind (decodeMembers structs all)).map (build fs) = some vs ↔
      exactFields structs fs vs = true)
  | .nil => by simp [encodeFields,decodeMembers,build,exactFields]
  | .cons head tail => by
    simp only [List.map_cons,List.nodup_cons] at distinct
    rw [fieldTrips (here _ List.mem_cons_self) distinct.1 (trips head)
      (tripsFields (fun g mem => here g (List.mem_cons_of_mem _ mem)) distinct.2 tail)]
    simp only [exactFields,Bool.and_eq_true]
    split <;> simp
end

end Trips

section Success
variable (idl : Idl)

def Fits (m : Method) (v : Value) : Prop :=
  match idl.success m with
  | some t => Typed idl.structs t v
  | none => v = .nil

def faithful (m : Method) (v : Value) : Bool :=
  match idl.success m with
  | some (.optional _) => v != .nil && exactScalar v
  | some (.struct name) => v != .nil && exact idl.structs (.struct name) v
  | _ => false

variable {idl}

theorem zeroSet (s : Scalar) : zeroScalar s ≠ .nil := by cases s <;> exact nofun

theorem setOptional {m : Method} {s : Scalar} (success : idl.success m = some (.optional s)) :
    idl.setSuccess m = decodeScalar s := by
  funext data
  simp only [Idl.setSuccess,success]

theorem setStruct {m : Method} {name : String} (success : idl.success m = some (.struct name)) (ms : Members) :
    idl.setSuccess m (.object ms) = decode idl.structs (.struct name) (.object ms) := by
  simp only [Idl.setSuccess,success,reduceCtorEq,if_false]

theorem structTrips {m : Method} {name : String} {vs : Values} (success : idl.success m = some (.struct name)) :
    (encode idl.structs (.struct name) (.struct vs)).bind (idl.setSuccess m) =
      (encode idl.structs (.struct name) (.struct vs)).bind (decode idl.structs (.struct name)) := by
  rw [encode]
  cases encodeFields idl.structs (idl.structs name).fields vs with
  | none => rfl
  | some ms => exact setStruct success ms

def GoType.pointer : GoType → Bool
  | .optional _ | .struct _ => true
  | _ => false

theorem noPointer {m : Method} {v : Value} (plain : ∀ t, idl.success m = some t → t.pointer = false) :
    (idl.marshal m v).bind (idl.setSuccess m) = some v ↔ faithful idl m v = true := by
  have refused : ∀ data, idl.setSuccess m data = none := by
    intro data
    simp only [Idl.setSuccess]
    split
    · exact absurd (plain _ (by assumption)) (by simp [GoType.pointer])
    · exact absurd (plain _ (by assumption)) (by simp [GoType.pointer])
    · rfl
  have never : faithful idl m v = false := by
    simp only [faithful]
    split
    · exact absurd (plain _ (by assumption)) (by simp [GoType.pointer])
    · exact absurd (plain _ (by assumption)) (by simp [GoType.pointer])
    · rfl
  rw [never,Option.bind_eq_some_iff]
  constructor
  · rintro ⟨data,-,read⟩
    rw [refused data] at read
    contradiction
  · exact fun same => absurd same Bool.false_ne_true

theorem typedSet {s : Scalar} {v : Value} (of : TypedScalar s v) : v ≠ .nil := by cases of <;> exact nofun

theorem successTrips {m : Method} {v : Value} (fits : Fits idl m v) :
    (idl.marshal m v).bind (idl.setSuccess m) = some v ↔ faithful idl m v = true := by
  cases success : idl.success m with
  | none => exact noPointer (fun t some' => nomatch success.symm.trans some')
  | some t =>
    simp only [Fits,success] at fits
    have writes : idl.marshal m v = encode idl.structs t v := by simp only [Idl.marshal,success]
    cases t with
    | optional s =>
      rw [writes,setOptional success]
      cases fits with
      | absent => simp [faithful,success,encode,decodeScalar,zeroSet]
      | optional of =>
        have same : encode idl.structs (.optional s) v = encodeScalar s v := by cases of <;> simp [encode]
        rw [same,scalarTrips of]
        simp [faithful,success,typedSet of]
    | struct name =>
      rw [writes]
      cases fits with
      | noStruct => simp [Idl.setSuccess,faithful,success,encode]
      | struct all =>
        rw [structTrips success,trips (.struct all)]
        simp [faithful,success]
    | _ =>
      refine noPointer (fun t some' => ?_)
      cases Option.some.inj (success.symm.trans some')
      rfl

end Success
end DevkitCommon.Kitexx
