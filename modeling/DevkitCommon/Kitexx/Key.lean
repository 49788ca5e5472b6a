import DevkitCommon.Kitexx.Idempotency
import DevkitCommon.Lib.Text
import Mathlib

/-! Which calls of a service share an idempotency key. A method's name ends at its colon
and a uid has digits only; the request id between them is the caller's, and an id may end
as a login's key does. -/
namespace DevkitCommon.Kitexx

structure Fields where
  method : Method
  requestId : String
  login : Option Login
  deriving DecidableEq

def Fields.key (service : String) (f : Fields) : String :=
  idempotencyKey service f.method f.requestId f.login

def Imitates (a b : Fields) : Prop :=
  a.method = b.method ∧ a.login = none ∧
    ∃ l, b.login = some l ∧ a.requestId = b.requestId ++ ":u" ++ l.uid.repr

def suffix : Option Login → List Char
  | none => []
  | some l => ':' :: 'u' :: l.uid.repr.toList

theorem keyChars (service : String) (f : Fields) : (f.key service).toList =
    ("idem:" ++ service ++ ":").toList ++ (f.method.name.toList ++ ':'::(f.requestId.toList ++ suffix f.login)) := by
  cases login : f.login <;> simp [Fields.key,idempotencyKey,suffix,login]

theorem uidChars (l : Login) : ':' ∉ l.uid.repr.toList := by
  intro mem
  have positive := l.positive
  rw [Int.repr_eq_if,if_pos (by omega),Nat.toList_repr] at mem
  exact absurd (Nat.isDigit_of_mem_toDigits (by decide) (by decide) mem) (by decide)

theorem loginUid {l l' : Login} (same : l.uid = l'.uid) : l = l' := by
  obtain ⟨uid,_⟩ := l
  obtain ⟨uid',_⟩ := l'
  cases same
  rfl

theorem methodName {m m' : Method} (same : m.name = m'.name) : m = m' := by
  obtain ⟨name,_⟩ := m
  obtain ⟨name',_⟩ := m'
  cases same
  rfl

theorem longerId (id id' : String) (l : Login) :
    id.toList = id'.toList ++ suffix (some l) ↔ id = id' ++ ":u" ++ l.uid.repr := by
  rw [← String.toList_inj,String.toList_append,String.toList_append,List.append_assoc]
  rfl

theorem sameSuffix {id id' : String} {l l' : Login}
    (same : id.toList ++ suffix (some l) = id'.toList ++ suffix (some l')) : id = id' ∧ l = l' := by
  have clean : ∀ l : Login, ':' ∉ 'u'::l.uid.repr.toList := by
    intro l mem
    rcases List.mem_cons.mp mem with first | digit
    · exact absurd first (by decide)
    · exact uidChars l digit
  obtain ⟨ids,tails⟩ := Text.cutLast (clean l) (clean l') same
  have uids : l.uid.repr = l'.uid.repr := String.toList_inj.mp (List.cons.inj tails).2
  exact ⟨String.toList_inj.mp ids,loginUid (Int.repr_injective uids)⟩

theorem keySplit {service : String} {a b : Fields} : a.key service = b.key service ↔
    a.method = b.method ∧ a.requestId.toList ++ suffix a.login = b.requestId.toList ++ suffix b.login := by
  rw [← String.toList_inj,keyChars,keyChars,List.append_cancel_left_eq]
  constructor
  · intro same
    obtain ⟨names,rest⟩ := Text.cutUnique a.method.plain b.method.plain same
    exact ⟨methodName (String.toList_inj.mp names),rest⟩
  · rintro ⟨methods,rest⟩
    rw [methods,rest]

theorem keyExact (service : String) (a b : Fields) :
    a.key service = b.key service ↔ a = b ∨ Imitates a b ∨ Imitates b a := by
  obtain ⟨m,id,login⟩ := a
  obtain ⟨m',id',login'⟩ := b
  rw [keySplit]
  cases login with
  | none =>
    cases login' with
    | none => simp [suffix,Imitates,String.toList_inj]
    | some l =>
      have ids := longerId id id' l
      simp only [suffix,List.append_nil] at ids ⊢
      simp [Imitates,ids]
  | some l =>
    cases login' with
    | none =>
      have ids := longerId id' id l
      simp only [suffix,List.append_nil] at ids ⊢
      simp [Imitates,eq_comm,ids]
    | some l' =>
      have both : id.toList ++ suffix (some l) = id'.toList ++ suffix (some l') ↔ id = id' ∧ l = l' :=
        ⟨sameSuffix,fun ⟨ids,logins⟩ => by rw [ids,logins]⟩
      simp [Imitates,both]

theorem keysDiffer (service : String) (a b : Fields) :
    (a.key service = b.key service ↔ a = b) ↔ ¬ Imitates a b ∧ ¬ Imitates b a := by
  have apart : ∀ {a b : Fields}, Imitates a b → a ≠ b := by
    rintro a b ⟨-,none',l,some',-⟩ rfl
    rw [none'] at some'
    contradiction
  constructor
  · intro told
    refine ⟨fun left => apart left ?_,fun right => apart right ?_⟩
    · exact told.mp ((keyExact service a b).mpr (.inr (.inl left)))
    · exact (told.mp ((keyExact service a b).mpr (.inr (.inr right)))).symm
  · rintro ⟨left,right⟩
    rw [keyExact]
    simp only [left,right,or_self,or_false]

def checkout : Method := ⟨"Checkout",by decide⟩
def member : Login := ⟨5,by decide⟩

theorem idImitates : ¬ ∀ (service : String) (a b : Fields), a.requestId ≠ "" → b.requestId ≠ "" →
    (a.key service = b.key service ↔ a = b) := by
  intro apart
  have same := (apart "wallet" ⟨checkout,"x:u5",none⟩ ⟨checkout,"x",some member⟩ (by decide) (by decide)).mp
    (by decide)
  contradiction

end DevkitCommon.Kitexx
