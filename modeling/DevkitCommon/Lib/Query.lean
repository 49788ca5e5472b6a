import Mathlib.Data.List.Basic

/-! Form bodies as bytes: pieces between `&`, each a name and a value that are escaped
apart, and the values of a name gathered. -/
namespace DevkitCommon.Query

abbrev Bytes := List UInt8

def hexValue (c : UInt8) : Option Nat :=
  let n := c.toNat
  if 0x30 ≤ n ∧ n ≤ 0x39 then some (n - 0x30)
  else if 0x61 ≤ n ∧ n ≤ 0x66 then some (n - 0x61 + 10)
  else if 0x41 ≤ n ∧ n ≤ 0x46 then some (n - 0x41 + 10)
  else none

def unescape : Bytes → Option Bytes
  | [] => some []
  | 0x25::rest => match rest with
    | a::b::rest => do
      let x ← hexValue a
      let y ← hexValue b
      let more ← unescape rest
      some (UInt8.ofNat (16*x + y)::more)
    | _ => none
  | c::rest => do
    let more ← unescape rest
    some ((if c = 0x2B then 0x20 else c)::more)

abbrev Params := List (Bytes × List Bytes)

def add (k v : Bytes) : Params → Params
  | [] => [(k,[v])]
  | (name,vs)::rest => if name = k then (name,vs ++ [v])::rest else (name,vs)::add k v rest

def gather (pairs : List (Bytes × Bytes)) : Params := pairs.foldl (fun m p => add p.1 p.2 m) []

def nameOf (piece : Bytes) : Bytes := piece.takeWhile (fun c => c != 0x3D)
def valueOf (piece : Bytes) : Bytes := (piece.dropWhile (fun c => c != 0x3D)).drop 1

def pair (piece : Bytes) : Option (Bytes × Bytes) :=
  if 0x3B ∈ piece then none
  else do
    let k ← unescape (nameOf piece)
    let v ← unescape (valueOf piece)
    some (k,v)

def pairs : List Bytes → Option (List (Bytes × Bytes))
  | [] => some []
  | piece::rest =>
    if piece = [] then pairs rest
    else do
      let p ← pair piece
      let more ← pairs rest
      some (p::more)

def defaultMaxParams : Nat := 10000

def parseQuery (query : Bytes) : Option Params :=
  if query.count 0x26 + 1 ≤ defaultMaxParams then (pairs (query.splitOn 0x26)).map gather else none

example : parseQuery [0x61,0x3D,0x31,0x26,0x26,0x62,0x26,0x61,0x3D,0x25,0x32,0x30] =
    some [([0x61],[[0x31],[0x20]]),([0x62],[[]])] := by decide

section Apart
variable {secret : Bytes → Bool}

theorem pairsAppend (xs ys : List Bytes) :
    pairs (xs ++ ys) = (pairs xs).bind (fun a => (pairs ys).map (fun b => a ++ b)) := by
  induction xs with
  | nil => simp only [List.nil_append,pairs,Option.bind_some,Option.map_id_fun',id_eq]
  | cons piece xs ih =>
    simp only [List.cons_append,pairs,ih]
    split
    · rfl
    · cases pair piece with
      | none => rfl
      | some p =>
        cases pairs xs with
        | none => rfl
        | some a =>
          cases pairs ys with
          | none => rfl
          | some b => rfl

def shown (secret : Bytes → Bool) (p : Bytes × List Bytes) : Bytes × Option (List Bytes) :=
  (p.1,if secret p.1 then none else some p.2)

theorem addShown {m m' : Params} (same : m.map (shown secret) = m'.map (shown secret)) {k v v' : Bytes}
    (hides : secret k = true ∨ v = v') : (add k v m).map (shown secret) = (add k v' m').map (shown secret) := by
  induction m generalizing m' with
  | nil =>
    cases List.map_eq_nil_iff.mp same.symm
    rcases hides with hides | rfl
    · simp only [add,List.map_cons,List.map_nil,shown,hides,if_true]
    · rfl
  | cons p m ih =>
    cases m' with
    | nil => exact absurd same (List.cons_ne_nil _ _)
    | cons p' m' =>
      obtain ⟨first,rest⟩ := List.cons.inj same
      obtain ⟨name,vs⟩ := p
      obtain ⟨name',vs'⟩ := p'
      obtain ⟨rfl,values⟩ := Prod.mk.inj first
      simp only [add]
      split
      · rename_i here
        subst here
        refine List.cons_eq_cons.mpr ⟨?_,rest⟩
        cases hidden : secret name with
        | true => simp only [shown,hidden,if_true]
        | false =>
          have same : vs = vs' := by simpa only [hidden,Bool.false_eq_true,if_false,Option.some.injEq] using values
          have sent : v = v' := hides.resolve_left (fun found => Bool.false_ne_true (hidden.symm.trans found))
          rw [same,sent]
      · exact List.cons_eq_cons.mpr ⟨first,ih rest⟩

theorem gatherFrom {m m' : Params} (same : m.map (shown secret) = m'.map (shown secret)) (ps : List (Bytes × Bytes)) :
    (ps.foldl (fun m p => add p.1 p.2 m) m).map (shown secret) =
      (ps.foldl (fun m p => add p.1 p.2 m) m').map (shown secret) := by
  induction ps generalizing m m' with
  | nil => exact same
  | cons p ps ih => exact ih (addShown same (.inr rfl))

theorem gatherShown {k : Bytes} (hides : secret k = true) (before after : List (Bytes × Bytes)) (v v' : Bytes) :
    (gather (before ++ (k,v)::after)).map (shown secret) = (gather (before ++ (k,v')::after)).map (shown secret) := by
  unfold gather
  rw [List.foldl_append,List.foldl_append,List.foldl_cons,List.foldl_cons]
  exact gatherFrom (addShown rfl (.inl hides)) after

end Apart
end DevkitCommon.Query
