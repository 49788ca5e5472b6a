import DevkitCommon.Lib.JSON
import Mathlib.Data.List.Nodup

/-! The fields of a record: With and the call give them, convert renames what clashes with a
key of the record itself. Names are compared as they were given. -/
namespace DevkitCommon.Zlog
open JSON (Bytes bytes)

section Values

/- What zap holds of a value, as far as clipField tells the kinds apart. The text of an
error, of a Stringer and of the JSON is none where there is none; blocker is a value that
the console asks for lines. -/
inductive Payload where
  | skip
  | string (s : Bytes)
  | byteString (b : Option Bytes)
  | error (text : Option Bytes)
  | stringer (text : Option Bytes)
  | reflect (json : Option Bytes) (blocker : Bool)
  | other (text : Bytes)
  deriving DecidableEq, Repr

def runeStart (b : UInt8) : Bool := b &&& 0xC0 != 0x80

def cutBefore (s : Bytes) : Nat → Nat
  | 0 => 0
  | cut+1 => if runeStart (s.getD (cut+1) 0) then cut+1 else cutBefore s cut

def clip (s : Bytes) (max : Nat) : Bytes :=
  if s.length ≤ max then s
  else s.take (cutBefore s max) ++ bytes ("...(truncated, " ++ toString s.length ++ " bytes)")

def clipText (max : Nat) (z : Payload) : Option Bytes → Payload
  | some s => if max < s.length then .string (clip s max) else z
  | none => z

def clipField (max : Nat) : Payload → Payload
  | .string s => .string (clip s max)
  | .byteString b => clipText max (.byteString b) b
  | .error text => clipText max (.error text) text
  | .stringer text => clipText max (.stringer text) text
  | .reflect json blocker => clipText max (.reflect json blocker) json
  | z => z

end Values
section Cores

inductive Color where | noColor | red | green | yellow | blue | purple | cyan | gray
  deriving DecidableEq, Repr

structure Field where
  key : String
  payload : Payload
  color : Color
  deriving DecidableEq, Repr

/- What zap is handed: a field, or a coloured one as an object of its own without a key,
which adds the field it is made of. -/
inductive Zap where
  | plain (key : String) (payload : Payload)
  | inline (f : Field)
  deriving DecidableEq, Repr

def recordKeys : List String := ["time","level","caller","msg","stack","service","env","host","version"]

def clashPrefix : String := "fields."

def fieldKey (k : String) : String := if k ∈ recordKeys then clashPrefix ++ k else k

/- added are the fields of With, ready to be written; addedKeys the keys they were given. -/
structure Core where
  colored : Bool
  maxField : Int
  added : List Zap
  addedKeys : List String
  deriving DecidableEq, Repr

variable (c : Core)

def Core.convert (f : Field) : Zap :=
  let f := {f with key := fieldKey f.key}
  let f := if 0 < c.maxField then {f with payload := clipField c.maxField.toNat f.payload} else f
  if f.color ≠ .noColor ∧ c.colored then .inline f else .plain f.key f.payload

def Core.add (f : Field) : Core :=
  match c.addedKeys.findIdx? (fun k => k == f.key && k != "") with
  | some i => {c with added := c.added.set i (c.convert f)}
  | none => {c with added := c.added ++ [c.convert f],addedKeys := c.addedKeys ++ [f.key]}

def Core.withFields (fields : List Field) : Core := fields.foldl Core.add c

def hasKey (fields : List Field) (k : String) : Bool := fields.any (fun f => f.key == k)

def latest : List Field → List Field
  | [] => []
  | f::rest => if f.key = "" ∨ hasKey rest f.key = false then f::latest rest else latest rest

def Core.zap (fields : List Field) : List Zap :=
  ((c.addedKeys.zip c.added).filter (fun e => e.1 == "" || !hasKey fields e.1)).map Prod.snd ++
    (latest fields).map c.convert

/- own stands for a logger that New has made, follows for one that writes where the default
does, which Init may replace. -/
inductive Logger where
  | own (c : Core)
  | follows (fields : List Field)
  deriving DecidableEq, Repr

def Logger.With : Logger → List Field → Logger
  | .own c, fields => .own (c.withFields fields)
  | .follows given, fields => .follows (given ++ fields)

def Logger.core (std : Core) : Logger → Core
  | .own c => c
  | .follows fields => std.withFields fields

def Logger.record (std : Core) (l : Logger) (fields : List Field) : List Zap := (l.core std).zap fields

end Cores
section Latest
variable {f : Field} {given more fields : List Field} {k : String}

def keeps (fields : List Field) (k : String) : Bool := k == "" || !hasKey fields k

theorem hasKeyIff : hasKey fields k = true ↔ ∃ f ∈ fields, f.key = k := by
  simp only [hasKey,List.any_eq_true,beq_iff_eq]

theorem keepsIff : keeps fields k = true ↔ k = "" ∨ hasKey fields k = false := by
  simp only [keeps,Bool.or_eq_true,beq_iff_eq,Bool.not_eq_true']

theorem latestCons : latest (f::given) = if keeps given f.key then f::latest given else latest given := by
  rw [latest]
  exact if_congr keepsIff.symm rfl rfl

theorem hasKeyAppend : hasKey (given ++ more) k = (hasKey given k || hasKey more k) := List.any_append

theorem keepsAppend : keeps (given ++ more) k = (keeps given k && keeps more k) := by
  rw [keeps,hasKeyAppend,keeps,keeps]
  cases k == "" <;> cases hasKey given k <;> cases hasKey more k <;> rfl

theorem latestAppend : latest (given ++ more) =
    (latest given).filter (fun f => keeps more f.key) ++ latest more := by
  induction given with
  | nil => rfl
  | cons f given ih =>
    rw [List.cons_append,latestCons,latestCons,keepsAppend,ih]
    cases keeps given f.key with
    | false => rfl
    | true =>
      rw [Bool.true_and,if_pos rfl,List.filter_cons]
      split <;> rfl

theorem memLatest (mem : f ∈ latest given) : f ∈ given := by
  induction given with
  | nil => exact mem
  | cons g given ih =>
    rw [latestCons] at mem
    split at mem
    · obtain rfl | rest := List.mem_cons.mp mem
      · exact List.mem_cons_self
      · exact List.mem_cons_of_mem _ (ih rest)
    · exact List.mem_cons_of_mem _ (ih mem)

theorem latestHas (mem : f ∈ given) : ∃ g ∈ latest given, g.key = f.key := by
  induction given generalizing f with
  | nil => cases mem
  | cons g given ih =>
    rw [latestCons]
    cases last : keeps given g.key with
    | true =>
      obtain rfl | rest := List.mem_cons.mp mem
      · exact ⟨f,List.mem_cons_self,rfl⟩
      · obtain ⟨h,inside,same⟩ := ih rest
        exact ⟨h,List.mem_cons_of_mem _ inside,same⟩
    | false =>
      obtain rfl | rest := List.mem_cons.mp mem
      · have later : hasKey given f.key = true := by
          rw [keeps] at last
          simpa using (Bool.or_eq_false_iff.mp last).2
        obtain ⟨h,inside,same⟩ := hasKeyIff.mp later
        obtain ⟨l,at',again⟩ := ih inside
        exact ⟨l,at',again.trans same⟩
      · exact ih rest

def names (given : List Field) : List String := (given.map Field.key).filter (fun k => k != "")

theorem memNames : k ∈ names given ↔ k ≠ "" ∧ ∃ f ∈ given, f.key = k := by
  simp only [names,List.mem_filter,List.mem_map,bne_iff_ne,and_comm]

theorem namesLatest : k ∈ names (latest given) ↔ k ∈ names given := by
  rw [memNames,memNames]
  refine and_congr_right fun _ => ⟨?_,?_⟩
  · rintro ⟨f,mem,same⟩
    exact ⟨f,memLatest mem,same⟩
  · rintro ⟨f,mem,same⟩
    obtain ⟨g,last,named⟩ := latestHas mem
    exact ⟨g,last,named.trans same⟩

theorem namesOnce (given : List Field) : (names (latest given)).Nodup := by
  induction given with
  | nil => exact List.nodup_nil
  | cons f given ih =>
    rw [latestCons]
    split
    · rename_i last
      rw [names,List.map_cons,List.filter_cons]
      split
      · rename_i named
        refine List.nodup_cons.mpr ⟨fun mem => ?_,ih⟩
        obtain ⟨_,g,later,same⟩ := memNames.mp mem
        obtain none | unheard := keepsIff.mp last
        · exact bne_iff_ne.mp named none
        · rw [hasKeyIff.mpr ⟨g,memLatest later,same⟩] at unheard
          cases unheard
      · exact ih
    · exact ih

end Latest
section Books

def Core.entries (c : Core) : List (String × Zap) := c.addedKeys.zip c.added

structure Books (c : Core) (given : List Field) : Prop where
  sizes : c.addedKeys.length = c.added.length
  holds : c.entries.Perm ((latest given).map (fun f => (f.key,c.convert f)))

variable {c : Core} {f : Field} {given fields : List Field}

theorem convertAdd (g : Field) : (c.add f).convert g = c.convert g := by
  unfold Core.add
  split <;> rfl

theorem convertWith (fields : List Field) : (c.withFields fields).convert = c.convert := by
  induction fields generalizing c with
  | nil => rfl
  | cons f fields ih => exact ih.trans (funext convertAdd)

theorem entriesNames (books : Books c given) :
    ((c.addedKeys).filter (fun k => k != "")).Perm (names (latest given)) := by
  have keys := books.holds.map Prod.fst
  rw [Core.entries,List.map_fst_zip (le_of_eq books.sizes),List.map_map] at keys
  exact keys.filter _

theorem setPerm {l : List (String × Zap)} {i : Nat} {k : String} {z : Zap} (named : k ≠ "")
    (once : ((l.map Prod.fst).filter (fun k => k != "")).Nodup) (found : (l.map Prod.fst)[i]? = some k) :
    (l.set i (k,z)).Perm (l.filter (fun e => e.1 == "" || e.1 != k) ++ [(k,z)]) := by
  induction l generalizing i with
  | nil => cases found
  | cons e l ih =>
    rw [List.map_cons,List.filter_cons] at once
    cases i with
    | zero =>
      have head : e.1 = k := Option.some.inj found
      rw [if_pos (by simpa [head] using named)] at once
      have absent := (List.nodup_cons.mp once).1
      have rest : l.filter (fun e => e.1 == "" || e.1 != k) = l := by
        refine List.filter_eq_self.mpr fun d mem => ?_
        have other : d.1 ≠ k := by
          rintro same
          refine absent (List.mem_filter.mpr ⟨List.mem_map.mpr ⟨d,mem,same.trans head.symm⟩,?_⟩)
          simpa [head] using named
        simp [other]
      rw [List.filter_cons,if_neg (by simp [head,named]),rest]
      exact (List.perm_append_singleton _ _).symm
    | succ i =>
      have inside : (l.map Prod.fst)[i]? = some k := found
      have tail : ((l.map Prod.fst).filter (fun k => k != "")).Nodup := by
        split at once
        · exact (List.nodup_cons.mp once).2
        · exact once
      have other : e.1 = "" ∨ e.1 ≠ k := by
        by_cases none : e.1 = ""
        · exact .inl none
        · refine .inr fun same => ?_
          rw [if_pos (bne_iff_ne.mpr none)] at once
          refine (List.nodup_cons.mp once).1 (List.mem_filter.mpr ⟨?_,bne_iff_ne.mpr none⟩)
          exact same ▸ List.mem_of_getElem? inside
      rw [List.filter_cons,if_pos (by simpa using other),List.set_cons_succ,List.cons_append]
      exact (ih tail inside).cons e

theorem zipSet {keys : List String} {added : List Zap} {i : Nat} {k : String} (z : Zap) (found : keys[i]? = some k) :
    keys.zip (added.set i z) = (keys.zip added).set i (k,z) := by
  induction keys generalizing i added with
  | nil => cases found
  | cons key keys ih =>
    cases added with
    | nil => rfl
    | cons a added =>
      cases i with
      | zero =>
        cases Option.some.inj found
        rfl
      | succ i => exact congrArg ((key,a)::·) (ih found)

theorem booksAdd (books : Books c given) : Books (c.add f) (given ++ [f]) := by
  have same : (fun g : Field => (g.key,(c.add f).convert g)) = fun g => (g.key,c.convert g) :=
    funext fun g => congrArg (Prod.mk g.key) (convertAdd g)
  have one : latest [f] = [f] := by rw [latestCons,keeps]; simp [hasKey,latest]
  have keys : ∀ k, k ≠ "" → (k ∈ c.addedKeys ↔ k ∈ names (latest given)) := by
    intro k named
    rw [← (entriesNames books).mem_iff,List.mem_filter,bne_iff_ne]
    exact (and_iff_left named).symm
  cases found : c.addedKeys.findIdx? (fun k => k == f.key && k != "") with
  | none =>
    have unheard := List.findIdx?_eq_none_iff.mp found
    have all : (latest given).filter (fun g => keeps [f] g.key) = latest given := by
      refine List.filter_eq_self.mpr fun g mem => ?_
      by_cases none : g.key = ""
      · exact keepsIff.mpr (.inl none)
      · have inside := (keys g.key none).mpr (memNames.mpr ⟨none,g,mem,rfl⟩)
        have other := unheard g.key inside
        rw [bne_iff_ne.mpr none,Bool.and_true,beq_eq_false_iff_ne] at other
        refine keepsIff.mpr (.inr ?_)
        rw [hasKey,List.any_cons,List.any_nil,Bool.or_false,beq_eq_false_iff_ne]
        exact Ne.symm other
    have next : c.add f = {c with added := c.added ++ [c.convert f],addedKeys := c.addedKeys ++ [f.key]} := by
      rw [Core.add,found]
    refine ⟨?_,?_⟩
    · rw [next]
      simp only [List.length_append,books.sizes,List.length_cons,List.length_nil]
    · rw [same,latestAppend,all,one,List.map_append,Core.entries,next]
      simp only
      rw [List.zip_append books.sizes]
      exact books.holds.append_right _
  | some i =>
    obtain ⟨short,at',_⟩ := List.findIdx?_eq_some_iff_getElem.mp found
    obtain ⟨equal,present⟩ := Bool.and_eq_true_iff.mp at'
    have key : c.addedKeys[i] = f.key := beq_iff_eq.mp equal
    have named : f.key ≠ "" := key ▸ bne_iff_ne.mp present
    have here : c.addedKeys[i]? = some f.key := by rw [List.getElem?_eq_getElem short,key]
    have front : c.entries.map Prod.fst = c.addedKeys := List.map_fst_zip (le_of_eq books.sizes)
    have once : ((c.entries.map Prod.fst).filter (fun k => k != "")).Nodup :=
      front ▸ (entriesNames books).nodup_iff.mpr (namesOnce given)
    have next : c.add f = {c with added := c.added.set i (c.convert f)} := by rw [Core.add,found]
    refine ⟨?_,?_⟩
    · rw [next,List.length_set]
      exact books.sizes
    · rw [same,latestAppend,one,List.map_append,Core.entries,next]
      simp only
      rw [zipSet _ here]
      refine (setPerm named once (front.symm ▸ here)).trans ?_
      refine List.Perm.append_right _ ((books.holds.filter _).trans (List.Perm.of_eq ?_))
      rw [List.filter_map]
      refine congrArg (List.map _) (List.filter_congr fun g _ => ?_)
      simp only [keeps,hasKey,List.any_cons,List.any_nil,Bool.or_false,Function.comp,bne,BEq.comm (a := f.key)]

theorem booksWith (books : Books c given) : Books (c.withFields fields) (given ++ fields) := by
  induction fields generalizing c given with
  | nil => rwa [List.append_nil]
  | cons f fields ih =>
    have more := ih (booksAdd (f := f) books)
    rwa [List.append_assoc] at more

theorem zapBooks (books : Books c given) : (c.zap fields).Perm ((latest (given ++ fields)).map c.convert) := by
  rw [latestAppend,List.map_append,Core.zap]
  refine List.Perm.append_right _ ?_
  have kept := (books.holds.filter (fun e => keeps fields e.1)).map Prod.snd
  rw [List.filter_map,List.map_map] at kept
  exact kept

end Books
section Claim

def Zap.keys : Zap → List String
  | .plain key payload => if payload = .skip then [] else [key]
  | .inline f => if f.payload = .skip then [] else [f.key]

def keysOf (record : List Zap) : List String := record.flatMap Zap.keys

def Field.Named (f : Field) : Prop := f.key = "" ↔ f.payload = .skip

structure Unique (c : Core) (given : List Field) (record : List Zap) : Prop where
  distinct : (keysOf record).Nodup
  apart : ∀ k ∈ keysOf record, k ∉ recordKeys
  newest : record.Perm ((latest given).map c.convert)

def Core.fresh (colored : Bool) (maxField : Int) : Core := ⟨colored,maxField,[],[]⟩

/- A logger before its With calls, with the fields it has already: one that New has made,
or the default's, which may have been put in place with fields of its own. -/
inductive Begun (base : Core) : Core → Logger → List Field → Prop where
  | new (std : Core) : Begun base std (.own base) []
  | default (own : List Field) : Begun base (base.withFields own) (.follows []) own

def Clashless (given : List Field) : Prop := ∀ k ∈ recordKeys, k ∈ names given → clashPrefix ++ k ∉ names given

instance (given : List Field) : Decidable (Clashless given) :=
  inferInstanceAs (Decidable (∀ k ∈ recordKeys, k ∈ names given → clashPrefix ++ k ∉ names given))

instance (f : Field) : Decidable f.Named := inferInstanceAs (Decidable (f.key = "" ↔ f.payload = .skip))

variable {c base std : Core} {l : Logger} {given own fields : List Field} {k m : String}

theorem clipSkip {max : Nat} {z : Payload} : clipField max z = .skip ↔ z = .skip := by
  have stays {z : Payload} (kind : z ≠ .skip) (text : Option Bytes) : clipText max z text ≠ .skip := by
    intro gone
    cases text with
    | none => exact kind gone
    | some s =>
      rw [clipText] at gone
      split at gone
      · cases gone
      · exact kind gone
  cases z with
  | skip => exact Iff.rfl
  | string s => exact iff_of_false (fun same => by cases same) (fun same => by cases same)
  | byteString b => exact iff_of_false (stays (fun same => by cases same) b) (fun same => by cases same)
  | error text => exact iff_of_false (stays (fun same => by cases same) text) (fun same => by cases same)
  | stringer text => exact iff_of_false (stays (fun same => by cases same) text) (fun same => by cases same)
  | reflect json blocker => exact iff_of_false (stays (fun same => by cases same) json) (fun same => by cases same)
  | other text => exact iff_of_false (fun same => by cases same) (fun same => by cases same)

theorem convertKeys (c : Core) (f : Field) :
    (c.convert f).keys = if f.payload = .skip then [] else [fieldKey f.key] := by
  unfold Core.convert
  by_cases limited : 0 < c.maxField
  · simp only [if_pos limited]
    split
    · simp only [Zap.keys,clipSkip]
    · simp only [Zap.keys,clipSkip]
  · simp only [if_neg limited]
    split
    · simp only [Zap.keys]
    · simp only [Zap.keys]

theorem keysWritten (named : ∀ f ∈ given, f.Named) : keysOf (given.map c.convert) = (names given).map fieldKey := by
  induction given with
  | nil => rfl
  | cons f given ih =>
    have rest := ih (fun g mem => named g (List.mem_cons_of_mem _ mem))
    have one : f.Named := named f List.mem_cons_self
    rw [keysOf,List.map_cons,List.flatMap_cons,convertKeys,names,List.map_cons,List.filter_cons]
    rw [keysOf] at rest
    by_cases none : f.key = ""
    · rw [if_pos (one.mp none),if_neg (by simpa using none),List.nil_append,rest]
      rfl
    · rw [if_neg (fun skip => none (one.mpr skip)),if_pos (bne_iff_ne.mpr none),rest]
      rfl

theorem movedApart : ∀ k ∈ recordKeys, clashPrefix ++ k ∉ recordKeys := by decide
theorem movedInjective : ∀ k ∈ recordKeys, ∀ m ∈ recordKeys, clashPrefix ++ k = clashPrefix ++ m → k = m := by decide

theorem fieldKeyApart (k : String) : fieldKey k ∉ recordKeys := by
  unfold fieldKey
  split
  · rename_i mem
    exact movedApart k mem
  · assumption

theorem fieldKeySame (same : fieldKey k = fieldKey m) :
    k = m ∨ k ∈ recordKeys ∧ clashPrefix ++ k = m ∨ m ∈ recordKeys ∧ clashPrefix ++ m = k := by
  unfold fieldKey at same
  split at same
  · rename_i first
    split at same
    · rename_i second
      exact .inl (movedInjective k first m second same)
    · exact .inr (.inl ⟨first,same⟩)
  · split at same
    · rename_i second
      exact .inr (.inr ⟨second,same.symm⟩)
    · exact .inl same

theorem distinctIff (given : List Field) : ((names (latest given)).map fieldKey).Nodup ↔ Clashless given := by
  rw [List.nodup_map_iff_inj_on (namesOnce given)]
  constructor
  · intro apart k mem first second
    have same : fieldKey k = fieldKey (clashPrefix ++ k) := by
      rw [fieldKey,if_pos mem,fieldKey,if_neg (movedApart k mem)]
    have equal := apart k (namesLatest.mpr first) _ (namesLatest.mpr second) same
    exact movedApart k mem (equal ▸ mem)
  · intro clashless k first m second same
    obtain equal | ⟨mem,moved⟩ | ⟨mem,moved⟩ := fieldKeySame same
    · exact equal
    · exact absurd (moved ▸ namesLatest.mp second) (clashless k mem (namesLatest.mp first))
    · exact absurd (moved ▸ namesLatest.mp first) (clashless m mem (namesLatest.mp second))

theorem booksFresh (colored : Bool) (maxField : Int) : Books (Core.fresh colored maxField) [] :=
  ⟨rfl,List.Perm.refl _⟩

theorem withAppend : c.withFields (given ++ fields) = (c.withFields given).withFields fields := List.foldl_append

theorem coreWith (begun : Begun base std l own) (chain : List (List Field)) :
    (chain.foldl Logger.With l).core std = base.withFields (own ++ chain.flatten) := by
  have made (c : Core) (chain : List (List Field)) :
      (chain.foldl Logger.With (.own c)).core std = c.withFields chain.flatten := by
    induction chain generalizing c with
    | nil => rfl
    | cons fields chain ih =>
      rw [List.foldl_cons,Logger.With,ih,List.flatten_cons,withAppend]
  have followed (given : List Field) (chain : List (List Field)) :
      chain.foldl Logger.With (.follows given) = .follows (given ++ chain.flatten) := by
    induction chain generalizing given with
    | nil => rw [List.flatten_nil,List.append_nil]; rfl
    | cons fields chain ih =>
      rw [List.foldl_cons,Logger.With,ih,List.flatten_cons,List.append_assoc]
  cases begun with
  | new => exact made base chain
  | default own =>
    rw [followed,Logger.core,List.nil_append,withAppend]

theorem namesUnique (colored : Bool) (maxField : Int) (std : Core) (l : Logger) (own : List Field)
    (chain : List (List Field)) (fields : List Field) (begun : Begun (Core.fresh colored maxField) std l own)
    (named : ∀ f ∈ own ++ chain.flatten ++ fields, f.Named) :
    Unique (Core.fresh colored maxField) (own ++ chain.flatten ++ fields)
      ((chain.foldl Logger.With l).record std fields) ↔ Clashless (own ++ chain.flatten ++ fields) := by
  have books : Books _ ([] ++ (own ++ chain.flatten)) := booksWith (booksFresh colored maxField)
  rw [List.nil_append] at books
  have holds : (Core.zap _ fields).Perm _ := zapBooks books
  rw [convertWith,← coreWith begun chain,← Logger.record] at holds
  have keys := holds.flatMap_right Zap.keys
  have last : ∀ f ∈ latest (own ++ chain.flatten ++ fields), f.Named := fun f mem => named f (memLatest mem)
  rw [← keysOf,← keysOf,keysWritten last] at keys
  constructor
  · intro unique
    exact (distinctIff _).mp (keys.nodup_iff.mp unique.distinct)
  · intro clashless
    refine ⟨keys.nodup_iff.mpr ((distinctIff _).mpr clashless),fun k mem => ?_,holds⟩
    obtain ⟨m,_,rfl⟩ := List.mem_map.mp (keys.mem_iff.mp mem)
    exact fieldKeyApart m

def str (key value : String) : Field := ⟨key,.string (bytes value),.noColor⟩

theorem playerUnique : Unique (Core.fresh false 0) [str "uid" "1",str "uid" "2",str "level" "15",⟨"",.skip,.red⟩]
    ((Logger.own (Core.fresh false 0)).With [str "uid" "1"] |>.record (Core.fresh false 0)
      [str "uid" "2",str "level" "15",⟨"",.skip,.red⟩]) :=
  (namesUnique false 0 (Core.fresh false 0) (.own (Core.fresh false 0)) [] [[str "uid" "1"]]
    [str "uid" "2",str "level" "15",⟨"",.skip,.red⟩] (.new _) (by decide)).mpr (by decide)

theorem levelTwice : ¬ ∀ colored maxField std l own (chain : List (List Field)) fields, Begun (Core.fresh colored maxField) std l own →
    (∀ f ∈ own ++ chain.flatten ++ fields, f.Named) → Unique (Core.fresh colored maxField)
      (own ++ chain.flatten ++ fields) ((chain.foldl Logger.With l).record std fields) := by
  intro unique
  have distinct := (unique false 0 (Core.fresh false 0) (.own (Core.fresh false 0)) [] []
    [str "level" "15",str "fields.level" "7"] (.new _) (by decide)).distinct
  revert distinct
  decide

end Claim
end DevkitCommon.Zlog
