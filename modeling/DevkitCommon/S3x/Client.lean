import DevkitCommon.Lib.Machine
import DevkitCommon.Lib.Objects
import DevkitCommon.Lib.Words
import Mathlib.Data.Char
import Mathlib.Data.List.Lex

/-! The files of a service in a bucket that others use too: each key is joined to the
service's prefix, and List strips the prefix off again. A request that fails may have been
carried out. -/
namespace DevkitCommon.S3x
open Machine Objects Words

section Source

def slash (c : Char) : Bool := c == '/'

structure Meta where
  size : Int
  lastModified : Int
  etag : String
  deriving DecidableEq, Repr

structure Object where
  key : Text
  info : Meta
  deriving DecidableEq, Repr

structure Client where
  folder : Text
  deriving DecidableEq, Repr

def opened (configured service : Text) : Client := ⟨if trim slash configured = [] then service else trim slash configured⟩

abbrev Bucket := Store Text Meta

namespace Client
variable (c : Client)

def full (key : Text) : Text := c.folder ++ '/'::trimLeft slash key

def put (bucket : Bucket) (key : Text) (info : Meta) : Bucket := Store.put bucket (c.full key) info
def delete (bucket : Bucket) (key : Text) : Bucket := Store.delete bucket (c.full key)
def get (bucket : Bucket) (key : Text) : Option Meta := Store.get bucket (c.full key)

def trimPrefix (t front : Text) : Text := if front <+: t then t.drop front.length else t

def maxKeys (limit : Int) : Nat := if 0 < limit ∧ limit < 1000 then limit.toNat else 1000

def list (bucket : Bucket) (dir : Text) (limit : Int) : List Object :=
  let p := c.full (trimRight slash dir) ++ ['/']
  (Store.list bucket (fun k => p.isPrefixOf k) (maxKeys limit)).map (fun e => ⟨trimPrefix e.1 (c.folder ++ ['/']),e.2⟩)

end Client

inductive Action where
  | put (key : Text) (info : Meta) (reply : Reply)
  | delete (key : Text) (reply : Reply)
  deriving DecidableEq, Repr

/- The bucket after a request, and the keys that the client has touched. -/
structure State where
  bucket : Bucket
  touched : List Text

def step (c : Client) (s : State) : Action → Option State
  | .put key info reply => some ⟨if reply.ran then c.put s.bucket key info else s.bucket,s.touched ++ [c.full key]⟩
  | .delete key reply => some ⟨if reply.ran then c.delete s.bucket key else s.bucket,s.touched ++ [c.full key]⟩

end Source
section Purpose

def store (kept : Bucket) : Action → Bucket
  | .put key info reply => if reply.ran then kept.put (trimLeft slash key) info else kept
  | .delete key reply => if reply.ran then kept.delete (trimLeft slash key) else kept

def stored (as : List Action) : Bucket := as.foldl store Store.empty

def below (dir key : Text) : Bool :=
  let d := trim slash dir
  d == [] || (d ++ ['/']).isPrefixOf key

def wanted (limit : Int) : Nat := if limit ≤ 0 then 1000 else min limit.toNat 1000

def listing (kept : Bucket) (dir : Text) (limit : Int) : List Object :=
  (kept.list (below dir) (wanted limit)).map (fun e => ⟨e.1,e.2⟩)

end Purpose
section Claim
variable {c : Client} {foreign kept : Bucket} {s t : State} {a : Action} {as : List Action} {dir r key : Text} {info : Meta}

def root (c : Client) : Text := c.folder ++ ['/']

structure Lists (c : Client) (as : List Action) (s : State) (dir : Text) (limit : Int) : Prop where
  touched : ∀ key ∈ s.touched, root c <+: key
  same : c.list s.bucket dir limit = listing (stored as) dir limit
  usable : ∀ o ∈ c.list s.bucket dir limit, c.get s.bucket o.key = some o.info

structure Refines (c : Client) (foreign kept : Bucket) (s : State) : Prop where
  holds : ∀ k b, (k,b) ∈ s.bucket.entries ↔ (∃ r, k = root c ++ r ∧ (r,b) ∈ kept.entries) ∨ (k,b) ∈ foreign.entries
  bare : ∀ e ∈ kept.entries, trimLeft slash e.1 = e.1
  touched : ∀ key ∈ s.touched, root c <+: key

def Apart (c : Client) (foreign : Bucket) : Prop := ∀ e ∈ foreign.entries, ¬ root c <+: e.1

theorem fullRoot (key : Text) : c.full key = root c ++ trimLeft slash key := by
  rw [Client.full,root,List.append_assoc]
  rfl

theorem trimLeftTwice (key : Text) : trimLeft slash (trimLeft slash key) = trimLeft slash key :=
  List.dropWhile_idempotent slash key

theorem rootSame {q : Text} : root c ++ r = root c ++ q ↔ r = q := List.append_right_inj _

theorem refinesPut (apart : Apart c foreign) (inv : Refines c foreign kept s) :
    ∀ k b, (k,b) ∈ (c.put s.bucket key info).entries ↔
      (∃ r, k = root c ++ r ∧ (r,b) ∈ (kept.put (trimLeft slash key) info).entries) ∨ (k,b) ∈ foreign.entries := by
  intro k b
  rw [Client.put,fullRoot,Store.memPut,inv.holds]
  constructor
  · rintro (⟨rfl,rfl⟩ | ⟨other,⟨r,rfl,mem⟩ | mem⟩)
    · exact .inl ⟨_,rfl,Store.memPut.mpr (.inl ⟨rfl,rfl⟩)⟩
    · exact .inl ⟨r,rfl,Store.memPut.mpr (.inr ⟨fun same => other (rootSame.mpr same),mem⟩)⟩
    · exact .inr mem
  · rintro (⟨r,rfl,mem⟩ | mem)
    · obtain ⟨rfl,rfl⟩ | ⟨other,mem⟩ := Store.memPut.mp mem
      · exact .inl ⟨rfl,rfl⟩
      · exact .inr ⟨fun same => other (rootSame.mp same),.inl ⟨r,rfl,mem⟩⟩
    · exact .inr ⟨fun same => apart _ mem (same ▸ List.prefix_append _ _),.inr mem⟩

theorem refinesDelete (apart : Apart c foreign) (inv : Refines c foreign kept s) :
    ∀ k b, (k,b) ∈ (c.delete s.bucket key).entries ↔
      (∃ r, k = root c ++ r ∧ (r,b) ∈ (kept.delete (trimLeft slash key)).entries) ∨ (k,b) ∈ foreign.entries := by
  intro k b
  rw [Client.delete,fullRoot,Store.memDelete,inv.holds]
  constructor
  · rintro ⟨other,⟨r,rfl,mem⟩ | mem⟩
    · exact .inl ⟨r,rfl,Store.memDelete.mpr ⟨fun same => other (rootSame.mpr same),mem⟩⟩
    · exact .inr mem
  · rintro (⟨r,rfl,mem⟩ | mem)
    · obtain ⟨other,mem⟩ := Store.memDelete.mp mem
      exact ⟨fun same => other (rootSame.mp same),.inl ⟨r,rfl,mem⟩⟩
    · exact ⟨fun same => apart _ mem (same ▸ List.prefix_append _ _),.inr mem⟩

theorem stepRefines (apart : Apart c foreign) (inv : Refines c foreign kept s) (ok : step c s a = some t) :
    Refines c foreign (store kept a) t := by
  have touches (key k : Text) (mem : k ∈ s.touched ++ [c.full key]) : root c <+: k := by
    obtain old | last := List.mem_append.mp mem
    · exact inv.touched k old
    · rw [List.mem_singleton.mp last,fullRoot]
      exact List.prefix_append _ _
  cases a with
  | put key info reply =>
    cases Option.some.inj ok
    rw [store]
    split
    · refine ⟨refinesPut apart inv,?_,touches key⟩
      rintro ⟨k,b⟩ mem
      obtain ⟨rfl,_⟩ | ⟨_,old⟩ := Store.memPut.mp mem
      · exact trimLeftTwice key
      · exact inv.bare _ old
    · exact ⟨inv.holds,inv.bare,touches key⟩
  | delete key reply =>
    cases Option.some.inj ok
    rw [store]
    split
    · refine ⟨refinesDelete apart inv,?_,touches key⟩
      rintro ⟨k,b⟩ mem
      exact inv.bare _ (Store.memDelete.mp mem).2
    · exact ⟨inv.holds,inv.bare,touches key⟩

theorem runRefines (apart : Apart c foreign) (inv : Refines c foreign kept s) (ok : run (step c) s as = some t) :
    Refines c foreign (as.foldl store kept) t := by
  induction as generalizing s kept with
  | nil =>
    cases Option.some.inj ok
    exact inv
  | cons a rest ih =>
    obtain ⟨u,one,more⟩ := runCons.mp ok
    exact ih (stepRefines apart inv one) more

theorem initRefines (c : Client) (foreign : Bucket) : Refines c foreign Store.empty ⟨foreign,[]⟩ where
  holds := by
    intro k b
    refine ⟨Or.inr,fun found => found.resolve_left ?_⟩
    rintro ⟨r,_,mem⟩
    cases mem
  bare := fun e mem => by cases mem
  touched := fun key mem => by cases mem

theorem listRoot (dir : Text) : c.full (trimRight slash dir) ++ ['/'] = root c ++ (trim slash dir ++ ['/']) := by
  rw [fullRoot,trimSwap,List.append_assoc]

theorem mapOrdered {l : List (Text × Meta)} (ordered : Ordered l) :
    Ordered (l.map (fun e => (root c ++ e.1,e.2))) :=
  List.pairwise_map.mpr (ordered.imp fun less => List.append_left_lt less)

theorem filterRoot (apart : Apart c foreign) (inv : Refines c foreign kept s) (front : Text) :
    s.bucket.entries.filter (fun e => (root c ++ front).isPrefixOf e.1) =
      (kept.entries.filter (fun e => front.isPrefixOf e.1)).map (fun e => (root c ++ e.1,e.2)) := by
  refine orderedExt (s.bucket.ordered.filter _) (mapOrdered (kept.ordered.filter _)) fun ⟨k,b⟩ => ?_
  rw [List.mem_filter,inv.holds,List.isPrefixOf_iff_prefix,List.mem_map]
  constructor
  · rintro ⟨⟨r,rfl,mem⟩ | mem,begins⟩
    · have front' := (List.prefix_append_right_inj _).mp begins
      exact ⟨(r,b),List.mem_filter.mpr ⟨mem,List.isPrefixOf_iff_prefix.mpr front'⟩,rfl⟩
    · exact absurd ((List.prefix_append _ _).trans begins) (apart _ mem)
  · rintro ⟨⟨r,b'⟩,mem,same⟩
    obtain ⟨inside,begins⟩ := List.mem_filter.mp mem
    cases same
    exact ⟨.inl ⟨r,rfl,inside⟩,(List.prefix_append_right_inj _).mpr (List.isPrefixOf_iff_prefix.mp begins)⟩

theorem trimPrefixRoot : Client.trimPrefix (root c ++ r) (root c) = r := by
  rw [Client.trimPrefix,if_pos (List.prefix_append _ _),List.drop_left]

theorem listExact (apart : Apart c foreign) (inv : Refines c foreign kept s) (dir : Text) (limit : Int) :
    c.list s.bucket dir limit =
      (kept.list (fun k => (trim slash dir ++ ['/']).isPrefixOf k) (Client.maxKeys limit)).map (fun e => ⟨e.1,e.2⟩) := by
  rw [Client.list,Store.list,listRoot,filterRoot apart inv,← List.map_take,List.map_map,Store.list]
  refine List.map_congr_left fun e _ => ?_
  have same : Client.trimPrefix (root c ++ e.1) (c.folder ++ ['/']) = e.1 := trimPrefixRoot
  simp only [Function.comp,same]

theorem maxKeysWanted (limit : Int) : Client.maxKeys limit = wanted limit := by
  rw [Client.maxKeys,wanted]
  split <;> split <;> omega

theorem wantedPositive (limit : Int) : 0 < wanted limit := by
  rw [wanted]
  split <;> omega

theorem belowSome (some' : trim slash dir ≠ []) : below dir = fun k => (trim slash dir ++ ['/']).isPrefixOf k := by
  funext k
  rw [below,beq_eq_false_iff_ne.mpr some',Bool.false_or]

theorem listNothing (inv : Refines c foreign kept s) : kept.list (fun k => (['/'] : Text).isPrefixOf k) n = [] := by
  have none : kept.entries.filter (fun e => (['/'] : Text).isPrefixOf e.1) = [] := by
    refine List.filter_eq_nil_iff.mpr fun e mem begins => ?_
    obtain ⟨rest,same⟩ := List.isPrefixOf_iff_prefix.mp begins
    have bare := inv.bare e mem
    rw [← same] at bare
    have short := List.length_dropWhile_le slash rest
    have equal : rest.dropWhile slash = '/'::rest := bare
    rw [equal,List.length_cons] at short
    omega
  rw [Store.list,none,List.take_nil]

theorem listInverts (c : Client) (foreign : Bucket) (as : List Action) (s : State) (dir : Text) (limit : Int)
    (apart : Apart c foreign) (ok : run (step c) ⟨foreign,[]⟩ as = some s) :
    Lists c as s dir limit ↔ trim slash dir ≠ [] ∨ (stored as).entries = [] := by
  have inv : Refines c foreign (stored as) s := runRefines apart (initRefines c foreign) ok
  have exact' := listExact apart inv dir limit
  constructor
  · intro lists
    refine or_iff_not_imp_left.mpr fun none => ?_
    rw [not_not] at none
    have same := lists.same
    rw [exact',none,List.nil_append,listNothing inv,List.map_nil] at same
    have empty := List.map_eq_nil_iff.mp same.symm
    have all : (stored as).entries.filter (fun e => below dir e.1) = (stored as).entries := by
      refine List.filter_eq_self.mpr fun e _ => ?_
      rw [below,none]
      rfl
    rw [Store.list,all,List.take_eq_nil_iff] at empty
    exact empty.resolve_left (wantedPositive limit).ne'
  · intro holds
    have same : c.list s.bucket dir limit = listing (stored as) dir limit := by
      rw [exact',listing,maxKeysWanted]
      obtain some' | none := holds
      · rw [belowSome some']
      · simp only [Store.list,none,List.filter_nil,List.take_nil]
    refine ⟨inv.touched,same,fun o mem => ?_⟩
    rw [exact'] at mem
    obtain ⟨⟨r,b⟩,inside,rfl⟩ := List.mem_map.mp mem
    have kept := (List.mem_filter.mp (List.mem_of_mem_take inside)).1
    rw [Client.get,fullRoot,Store.getIff,inv.bare _ kept]
    exact (inv.holds _ _).mpr (.inl ⟨r,rfl,kept⟩)

def member : Client := opened "/ser-member/".toList "ser-member".toList
def small : Meta := ⟨3,0,"e"⟩

def shared : Bucket := Store.empty.put "ser-wallet/a".toList small

def avatars : List Action :=
  [.put "/avatars/42.png".toList small .ok,.put "docs/a".toList small .ok,.put "avatars/7.png".toList small .lost,
    .delete "docs/a".toList .ok,.put "avatars/9.png".toList small .failed]

instance (c : Client) (foreign : Bucket) : Decidable (Apart c foreign) :=
  inferInstanceAs (Decidable (∀ e ∈ foreign.entries, ¬ root c <+: e.1))

theorem avatarsListed : ∃ s, run (step member) ⟨shared,[]⟩ avatars = some s ∧
    member.list s.bucket "/avatars/".toList 0 = [⟨"avatars/42.png".toList,small⟩,⟨"avatars/7.png".toList,small⟩] ∧
    Lists member avatars s "/avatars/".toList 0 := by
  have facts : (run (step member) ⟨shared,[]⟩ avatars).map (fun s => member.list s.bucket "/avatars/".toList 0) =
      some [⟨"avatars/42.png".toList,small⟩,⟨"avatars/7.png".toList,small⟩] := by decide
  obtain ⟨s,ok,listed⟩ := Option.map_eq_some_iff.mp facts
  exact ⟨s,ok,listed,(listInverts member shared avatars s "/avatars/".toList 0 (by decide) ok).mpr (.inl (by decide))⟩

theorem rootUnlisted : ¬ ∀ c foreign as s dir limit, Apart c foreign → run (step c) ⟨foreign,[]⟩ as = some s →
    Lists c as s dir limit := by
  intro lists
  have one : run (step member) ⟨Store.empty,[]⟩ [.put "a".toList small .ok] =
      some ⟨member.put Store.empty "a".toList small,[member.full "a".toList]⟩ := rfl
  have same := (lists member Store.empty _ _ [] 0 (fun e mem => by cases mem) one).same
  revert same
  decide

end Claim
end DevkitCommon.S3x
