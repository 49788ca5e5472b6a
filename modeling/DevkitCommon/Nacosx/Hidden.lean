import DevkitCommon.Nacosx.Secrets

/-! Whether the log shows what is directly under a key of a secret: two documents that differ in
that only are printed alike but for it, and a list with it is masked for what stands around it. -/
namespace DevkitCommon.Nacosx.Secrets
open Words Holes

section Printed
variable (f g : String → String)

def Puts (e : Text → Text) (f g : String → String) (x y : Text) : Prop := ∃ s : String, x = e (f s).toList ∧ y = e (g s).toList

theorem sortedFilled {K : Type} {H : Text → Text → Prop} (r : K → K → Prop) [DecidableRel r] (front : K → Text) (sep : Text)
    (zs : List (K × Piece H)) : Filled H (zs.any fun z => z.2.hole)
      (sep.intercalate (((zs.map fun z => (z.1,z.2.one)).insertionSort fun p q => r p.1 q.1).map fun p => front p.1 ++ ':'::p.2))
      (sep.intercalate (((zs.map fun z => (z.1,z.2.other)).insertionSort fun p q => r p.1 q.1).map fun p =>
        front p.1 ++ ':'::p.2)) := by
  let order (z w : K × Piece H) : Prop := r z.1 w.1
  have one : (zs.insertionSort order).map (fun z => (z.1,z.2.one)) =
      (zs.map fun z => (z.1,z.2.one)).insertionSort fun p q => r p.1 q.1 :=
    List.map_insertionSort _ _ _ zs fun _ _ _ _ => Iff.rfl
  have other : (zs.insertionSort order).map (fun z => (z.1,z.2.other)) =
      (zs.map fun z => (z.1,z.2.other)).insertionSort fun p q => r p.1 q.1 :=
    List.map_insertionSort _ _ _ zs fun _ _ _ _ => Iff.rfl
  rw [← one,← other,List.map_map,List.map_map,← (List.perm_insertionSort order zs).any_eq]
  let piece (z : K × Piece H) : Piece H :=
    ⟨z.2.hole,front z.1 ++ ':'::z.2.one,front z.1 ++ ':'::z.2.other,filledFront (.char z.2.filled) _⟩
  have whole := filledJoin sep ((zs.insertionSort order).map piece)
  rwa [List.any_map,List.map_map,List.map_map] at whole

mutual
theorem encodeFilled (direct : Bool) : (v : Val) →
    Option.Rel (Filled (Puts escapeAll f g) (v.holds direct)) (v.secrets f direct).encode (v.secrets g direct).encode
  | .null => .some (filledPlain _)
  | .scalar json _ => by
    cases json with
    | none => exact .none
    | some t => exact .some (filledPlain t)
  | .str s => by
    cases direct with
    | false => exact .some (filledPlain _)
    | true => exact .some (.char (filledBack (filledHole ⟨s,rfl,rfl⟩) ['"']))
  | .list items => by
    have parts := itemsFilled items
    rw [Val.secrets,Val.secrets,Val.encode,Val.encode,Val.holds]
    generalize encodeItems (itemSecrets f items) = xs at parts ⊢
    generalize encodeItems (itemSecrets g items) = ys at parts ⊢
    cases parts with
    | none => exact .none
    | some whole =>
      obtain ⟨zs,rfl,rfl,same⟩ := whole
      exact .some (.char (same ▸ filledBack (filledJoin [','] zs) [']']))
  | .mapping entries => by
    have parts := entriesFilled entries
    rw [Val.secrets,Val.secrets,Val.encode,Val.encode,Val.holds]
    generalize encodeEntries (entrySecrets f entries) = xs at parts ⊢
    generalize encodeEntries (entrySecrets g entries) = ys at parts ⊢
    cases parts with
    | none => exact .none
    | some whole =>
      obtain ⟨zs,rfl,rfl,same⟩ := whole
      have joined := sortedFilled (fun k j : String => k ≤ j) (fun k => quote k.toList) [','] zs
      rw [same] at joined
      exact .some (.char (filledBack joined ['\x7d']))
theorem itemsFilled : (items : List Val) →
    Option.Rel (fun xs ys => ∃ zs : List (Piece (Puts escapeAll f g)),
      xs = zs.map Piece.one ∧ ys = zs.map Piece.other ∧ zs.any Piece.hole = itemsHold items)
      (encodeItems (itemSecrets f items)) (encodeItems (itemSecrets g items))
  | [] => .some ⟨[],rfl,rfl,rfl⟩
  | v::rest => by
    have first := encodeFilled false v
    have more := itemsFilled rest
    rw [itemSecrets,itemSecrets,encodeItems,encodeItems,itemsHold]
    generalize (v.secrets f false).encode = x at first ⊢
    generalize (v.secrets g false).encode = y at first ⊢
    generalize encodeItems (itemSecrets f rest) = xs at more ⊢
    generalize encodeItems (itemSecrets g rest) = ys at more ⊢
    cases first with
    | none => exact .none
    | some first =>
      cases more with
      | none => exact .none
      | some more =>
        obtain ⟨zs,rfl,rfl,same⟩ := more
        exact .some ⟨⟨_,_,_,first⟩::zs,rfl,rfl,by rw [List.any_cons,same]⟩
theorem entriesFilled : (entries : List (Key × Val)) →
    Option.Rel (fun xs ys => ∃ zs : List (String × Piece (Puts escapeAll f g)),
      xs = zs.map (fun z => (z.1,z.2.one)) ∧ ys = zs.map (fun z => (z.1,z.2.other)) ∧
        zs.any (fun z => z.2.hole) = entriesHold entries)
      (encodeEntries (entrySecrets f entries)) (encodeEntries (entrySecrets g entries))
  | [] => .some ⟨[],rfl,rfl,rfl⟩
  | (.other _,_)::_ => .none
  | (.str k,v)::rest => by
    have first := encodeFilled (isSecret k.toList) v
    have more := entriesFilled rest
    rw [entrySecrets,entrySecrets,encodeEntries,encodeEntries,entriesHold]
    change Option.Rel _ (Option.bind (v.secrets f (isSecret k.toList)).encode _) (Option.bind (v.secrets g (isSecret k.toList)).encode _)
    generalize (v.secrets f (isSecret k.toList)).encode = x at first ⊢
    generalize (v.secrets g (isSecret k.toList)).encode = y at first ⊢
    generalize encodeEntries (entrySecrets f rest) = xs at more ⊢
    generalize encodeEntries (entrySecrets g rest) = ys at more ⊢
    cases first with
    | none => exact .none
    | some first =>
      cases more with
      | none => exact .none
      | some more =>
        obtain ⟨zs,rfl,rfl,same⟩ := more
        exact .some ⟨(k,⟨_,_,_,first⟩)::zs,rfl,rfl,by rw [List.any_cons,same]; rfl⟩
end

variable (before : Key → Key → Bool)

mutual
theorem printFilled (direct : Bool) : (v : Val) →
    Filled (Puts id f g) (v.holds direct) ((v.secrets f direct).print before) ((v.secrets g direct).print before)
  | .null => filledPlain _
  | .scalar _ t => filledPlain t
  | .str s => by
    cases direct with
    | false => exact filledPlain _
    | true => exact filledHole ⟨s,rfl,rfl⟩
  | .list items => by
    obtain ⟨zs,left,right,same⟩ := printItemsFilled items
    rw [Val.secrets,Val.secrets,Val.print,Val.print,Val.holds,left,right]
    exact .char (same ▸ filledBack (filledJoin [' '] zs) [']'])
  | .mapping entries => by
    obtain ⟨zs,left,right,same⟩ := printEntriesFilled entries
    rw [Val.secrets,Val.secrets,Val.print,Val.print,Val.holds,left,right]
    exact filledFront (same ▸ filledBack (sortedFilled (fun k j => before k j = true) (fun k => k.print.toList) [' '] zs) [']']) _
theorem printItemsFilled : (items : List Val) → ∃ zs : List (Piece (Puts id f g)),
    printItems before (itemSecrets f items) = zs.map Piece.one ∧
      printItems before (itemSecrets g items) = zs.map Piece.other ∧ zs.any Piece.hole = itemsHold items
  | [] => ⟨[],rfl,rfl,rfl⟩
  | v::rest => by
    obtain ⟨zs,left,right,same⟩ := printItemsFilled rest
    exact ⟨⟨_,_,_,printFilled false v⟩::zs,congrArg _ left,congrArg _ right,congrArg _ same⟩
theorem printEntriesFilled : (entries : List (Key × Val)) → ∃ zs : List (Key × Piece (Puts id f g)),
    printEntries before (entrySecrets f entries) = zs.map (fun z => (z.1,z.2.one)) ∧
      printEntries before (entrySecrets g entries) = zs.map (fun z => (z.1,z.2.other)) ∧
        zs.any (fun z => z.2.hole) = entriesHold entries
  | [] => ⟨[],rfl,rfl,rfl⟩
  | (k,v)::rest => by
    obtain ⟨zs,left,right,same⟩ := printEntriesFilled rest
    exact ⟨(k,⟨_,_,_,printFilled (isSecret k.print.toList) v⟩)::zs,congrArg _ left,congrArg _ right,congrArg _ same⟩
end

theorem leafFilled (direct : Bool) (v : Val) : ∃ e, (e = escapeAll ∨ e = id) ∧
    Filled (Puts e f g) (v.holds direct) ((v.secrets f direct).leaf before) ((v.secrets g direct).leaf before) := by
  cases v with
  | list items =>
    have whole := encodeFilled f g direct (.list items)
    rw [Val.secrets,Val.secrets] at whole ⊢
    rw [Val.leaf,Val.leaf]
    generalize (Val.list (itemSecrets f items)).encode = x at whole ⊢
    generalize (Val.list (itemSecrets g items)).encode = y at whole ⊢
    cases whole with
    | some is => exact ⟨escapeAll,.inl rfl,is⟩
    | none =>
      have printed := printFilled f g before direct (.list items)
      rw [Val.secrets,Val.secrets] at printed
      exact ⟨id,.inr rfl,printed⟩
  | null => exact ⟨id,.inr rfl,filledPlain _⟩
  | str s =>
    have printed := printFilled f g before direct (.str s)
    rw [Val.secrets,Val.secrets] at printed ⊢
    exact ⟨id,.inr rfl,printed⟩
  | scalar json t => exact ⟨id,.inr rfl,filledPlain t⟩
  | mapping entries =>
    have printed := printFilled f g before direct (.mapping entries)
    rw [Val.secrets,Val.secrets] at printed ⊢
    exact ⟨id,.inr rfl,printed⟩

end Printed
section Masks
variable {before : Key → Key → Bool} {w : String}

structure Fills (w : String) : Prop where
  long : 40 ≤ byteLength w.toList
  bare : ∀ c ∈ w.toList, (c == '"') = false
  plain : escapeAll w.toList = w.toList

theorem byteLengthAppend (s t : Text) : byteLength (s ++ t) = byteLength s + byteLength t := by
  induction s with
  | nil => exact (Nat.zero_add _).symm
  | cons c s ih => rw [List.cons_append,byteLength,byteLength,ih,Nat.add_assoc]

theorem fillsAs {e : Text → Text} (fills : Fills w) (written : e = escapeAll ∨ e = id) : e w.toList = w.toList :=
  written.elim (fun same => same ▸ fills.plain) fun same => same ▸ rfl

theorem fillsLong {e : Text → Text} (fills : Fills w) (written : e = escapeAll ∨ e = id) (g : String → String) :
    Long (Puts e (fun _ => w) g) (· == '"') (fun t => 40 ≤ byteLength t) where
  bare := by
    rintro x y ⟨s,rfl,_⟩
    rw [fillsAs fills written]
    exact fills.bare
  fills := by
    rintro x y ⟨s,rfl,_⟩ u
    rw [fillsAs fills written,byteLengthAppend]
    exact fills.long.trans (Nat.le_add_right _ _)
  grows c u long := long.trans (Nat.le_add_left _ _)

theorem leafBracket (before : Key → Key → Bool) (items : List Val) : ∃ t, (Val.list items).leaf before = '['::t := by
  rw [Val.leaf,Val.encode,Val.print]
  cases encodeItems items with
  | none => exact ⟨_,rfl⟩
  | some parts => exact ⟨_,rfl⟩

theorem listMaskedIs (items : List Val) : listMasked ((Val.list items).leaf before) = true ↔
    ∃ part ∈ ((Val.list items).leaf before).splitOnP (· == '"'), byteLength part < 40 ∧ isSecret part = true := by
  obtain ⟨t,is⟩ := leafBracket before items
  have blank : isSecret [] = false := by decide +kernel
  rw [is]
  simp only [listMasked,quotedParts]
  rw [Bool.and_eq_true,List.any_eq_true]
  constructor
  · rintro ⟨_,part,mem,found⟩
    obtain ⟨short,secret⟩ := (Bool.and_eq_true _ _).mp found
    exact ⟨part,(List.mem_filter.mp mem).1,of_decide_eq_true short,secret⟩
  · rintro ⟨part,mem,short,secret⟩
    have some' : (part != []) = true := bne_iff_ne.mpr fun empty => by rw [empty,blank] at secret; cases secret
    exact ⟨rfl,part,List.mem_filter.mpr ⟨mem,some'⟩,(Bool.and_eq_true _ _).mpr ⟨decide_eq_true short,secret⟩⟩

theorem maskedKept (fills : Fills w) (g : String → String) {d : Bool} {items : List Val}
    (is : listMasked (((Val.list items).secrets (fun _ => w) d).leaf before) = true) :
    listMasked (((Val.list items).secrets g d).leaf before) = true := by
  obtain ⟨e,written,filled⟩ := leafFilled (fun _ => w) g before d (.list items)
  rw [Val.secrets] at is filled
  rw [Val.secrets] at filled ⊢
  obtain ⟨part,mem,short,secret⟩ := (listMaskedIs _).mp is
  exact (listMaskedIs _).mpr ⟨part,partKept (fillsLong fills written g) filled mem (Nat.not_le.mpr short),short,secret⟩

theorem leavesDiffer {u : String} (fills : Fills w) (fills' : Fills u) (apart : w.toList.head? ≠ u.toList.head?) {d : Bool} {v : Val}
    (holds : v.holds d = true) : (v.secrets (fun _ => w) d).leaf before ≠ (v.secrets (fun _ => u) d).leaf before := by
  obtain ⟨e,written,filled⟩ := leafFilled (fun _ => w) (fun _ => u) before d v
  intro same
  have differ : ∀ x y, Puts e (fun _ => w) (fun _ => u) x y → ∀ a b, x ++ a ≠ y ++ b := by
    rintro x y ⟨s,rfl,rfl⟩ a b joined
    rw [fillsAs fills written,fillsAs fills' written] at joined
    have some' {r : String} (fills : Fills r) : r.toList ≠ [] := fun empty => absurd fills.long (by rw [empty]; decide)
    have front := congrArg List.head? joined
    rw [List.head?_append_of_ne_nil _ (some' fills),List.head?_append_of_ne_nil _ (some' fills')] at front
    exact apart front
  have none := filledSame differ filled same
  rw [holds] at none
  cases none

theorem fillsFiller : Fills (filler 'z') ∧ Fills (filler 'y') := by
  have every : (List.replicate 40 'z').all (fun c => c != '"') = true ∧ (List.replicate 40 'y').all (fun c => c != '"') = true := by
    decide
  have bare {c : Char} (all : (List.replicate 40 c).all (fun c => c != '"') = true) :
      ∀ d ∈ (filler c).toList, (d == '"') = false := by
    intro d mem
    rw [filler,String.toList_ofList] at mem
    exact Bool.not_eq_true' _ |>.mp (List.all_eq_true.mp all d mem)
  exact ⟨⟨by decide +kernel,bare every.1,by decide +kernel⟩,⟨by decide +kernel,bare every.2,by decide +kernel⟩⟩

end Masks
section Shapes
variable (f g : String → String)

mutual
theorem secretsTwice (d : Bool) : (v : Val) → (v.secrets f d).secrets g d = v.secrets (fun s => g (f s)) d
  | .null => rfl
  | .scalar _ _ => rfl
  | .str s => by cases d <;> rfl
  | .list items => congrArg Val.list (itemsTwice items)
  | .mapping entries => congrArg Val.mapping (entriesTwice entries)
theorem itemsTwice : (items : List Val) → itemSecrets g (itemSecrets f items) = itemSecrets (fun s => g (f s)) items
  | [] => rfl
  | v::rest => congrArg₂ List.cons (secretsTwice false v) (itemsTwice rest)
theorem entriesTwice : (entries : List (Key × Val)) →
    entrySecrets g (entrySecrets f entries) = entrySecrets (fun s => g (f s)) entries
  | [] => rfl
  | (k,v)::rest => congrArg₂ List.cons (congrArg (Prod.mk k) (secretsTwice (isSecret k.print.toList) v)) (entriesTwice rest)
end

mutual
theorem secretsSame (d : Bool) : (v : Val) → (v.holds d = false ∨ ∀ s, f s = s) → v.secrets f d = v
  | .null,_ => rfl
  | .scalar _ _,_ => rfl
  | .str s,same => by
    cases d with
    | false => rfl
    | true => exact congrArg Val.str (same.elim (fun none => nomatch none) fun same => same s)
  | .list items,same => congrArg Val.list (itemsSame items same)
  | .mapping entries,same => congrArg Val.mapping (entriesSame entries same)
theorem itemsSame : (items : List Val) → (itemsHold items = false ∨ ∀ s, f s = s) → itemSecrets f items = items
  | [],_ => rfl
  | v::rest,same => congrArg₂ List.cons
    (secretsSame false v (same.imp (fun none => (Bool.or_eq_false_iff.mp none).1) id))
    (itemsSame rest (same.imp (fun none => (Bool.or_eq_false_iff.mp none).2) id))
theorem entriesSame : (entries : List (Key × Val)) → (entriesHold entries = false ∨ ∀ s, f s = s) → entrySecrets f entries = entries
  | [],_ => rfl
  | (k,v)::rest,same => congrArg₂ List.cons
    (congrArg (Prod.mk k) (secretsSame (isSecret k.print.toList) v (same.imp (fun none => (Bool.or_eq_false_iff.mp none).1) id)))
    (entriesSame rest (same.imp (fun none => (Bool.or_eq_false_iff.mp none).2) id))
end

mutual
theorem holdsSecrets (d : Bool) : (v : Val) → (v.secrets f d).holds d = v.holds d
  | .null => rfl
  | .scalar _ _ => rfl
  | .str _ => rfl
  | .list items => itemsHolds items
  | .mapping entries => entriesHolds entries
theorem itemsHolds : (items : List Val) → itemsHold (itemSecrets f items) = itemsHold items
  | [] => rfl
  | v::rest => congrArg₂ or (holdsSecrets false v) (itemsHolds rest)
theorem entriesHolds : (entries : List (Key × Val)) → entriesHold (entrySecrets f entries) = entriesHold entries
  | [] => rfl
  | (k,v)::rest => congrArg₂ or (holdsSecrets (isSecret k.print.toList) v) (entriesHolds rest)
end

def Leaf.secrets (l : Leaf) : Leaf := {l with value := l.value.secrets f l.direct}

mutual
theorem leavesSecrets (path : String) (d : Bool) : (v : Val) →
    (v.secrets f d).leaves path d = (v.leaves path d).map (Leaf.secrets f)
  | .null => rfl
  | .scalar _ _ => rfl
  | .str _ => rfl
  | .list _ => rfl
  | .mapping entries => leavesAllSecrets path entries
theorem leavesAllSecrets (path : String) : (entries : List (Key × Val)) →
    leavesAll path (entrySecrets f entries) = (leavesAll path entries).map (Leaf.secrets f)
  | [] => rfl
  | (k,v)::rest => by
    rw [entrySecrets,leavesAll,leavesAll,List.map_append,leavesSecrets (join path k.print) (isSecret k.print.toList) v,
      leavesAllSecrets path rest]
end

def Leaf.entry (before : Key → Key → Bool) (l : Leaf) : String × String := (l.path,String.ofList (l.value.leaf before))

mutual
theorem walkLeaves (before : Key → Key → Bool) (path : String) (d : Bool) : (v : Val) →
    walk path (v.doc before) = (v.leaves path d).map (Leaf.entry before)
  | .null => rfl
  | .scalar _ _ => rfl
  | .str _ => rfl
  | .list _ => rfl
  | .mapping entries => walkAllLeaves before path entries
theorem walkAllLeaves (before : Key → Key → Bool) (path : String) : (entries : List (Key × Val)) →
    walkAll path (docEntries before entries) = (leavesAll path entries).map (Leaf.entry before)
  | [] => rfl
  | (k,v)::rest => by
    rw [docEntries,walkAll,leavesAll,List.map_append,walkLeaves before (join path k.print) (isSecret k.print.toList) v,
      walkAllLeaves before path rest]
end

theorem takeBefore {p : Char → Bool} {c : Char} (stop : p c = false) (s t : Text) :
    (s ++ c::t).takeWhile p = s.takeWhile p := by
  induction s with
  | nil => exact List.takeWhile_cons_of_neg (by rw [stop]; decide)
  | cons d s ih =>
    rw [List.cons_append,List.takeWhile_cons,List.takeWhile_cons,ih]

theorem secretAfter (s : Text) {t : Text} (secret : isSecret t = true) : isSecret (s ++ '.'::t) = true := by
  have last : ((s ++ '.'::t).reverse.takeWhile fun c => c != '.') = t.reverse.takeWhile fun c => c != '.' := by
    rw [List.reverse_append,List.reverse_cons,List.append_assoc]
    exact takeBefore rfl _ _
  unfold isSecret at secret ⊢
  rw [last]
  rcases (Bool.or_eq_true _ _).mp secret with word | key
  · refine (Bool.or_eq_true _ _).mpr (.inl ?_)
    obtain ⟨w,mem,found⟩ := List.any_eq_true.mp word
    refine List.any_eq_true.mpr ⟨w,mem,decide_eq_true ?_⟩
    rw [List.filter_append,List.filter_cons_of_pos (by decide),toLower,List.map_append,List.map_cons]
    exact (of_decide_eq_true found).trans ⟨_,[],by rw [List.append_nil,← List.append_cons]; rfl⟩
  · exact (Bool.or_eq_true _ _).mpr (.inr key)

theorem secretJoin (path : String) {k : String} (secret : isSecret k.toList = true) : isSecret (join path k).toList = true := by
  unfold join
  split
  · exact secret
  · rw [String.toList_append,String.toList_append,List.append_assoc]
    exact secretAfter path.toList secret

structure Put (l : Leaf) : Prop where
  plain : ∀ entries, l.value ≠ .mapping entries
  secret : l.direct = true → isSecret l.path.toList = true

theorem putHere {path : String} {d : Bool} {v : Val} (under : d = true → isSecret path.toList = true)
    (plain : ∀ entries, v ≠ .mapping entries) : Put ⟨if path = "" then "(value)" else path,d,v⟩ := by
  refine ⟨plain,fun direct => ?_⟩
  have secret := under direct
  have some' : path ≠ "" := fun empty => by
    rw [empty] at secret
    exact absurd secret (by decide +kernel)
  dsimp only
  rw [if_neg some']
  exact secret

mutual
theorem leavesPut (path : String) (d : Bool) (under : d = true → isSecret path.toList = true) : (v : Val) →
    ∀ l ∈ v.leaves path d, Put l
  | .null => fun _ mem => List.mem_singleton.mp mem ▸ putHere under nofun
  | .scalar _ _ => fun _ mem => List.mem_singleton.mp mem ▸ putHere under nofun
  | .str _ => fun _ mem => List.mem_singleton.mp mem ▸ putHere under nofun
  | .list _ => fun _ mem => List.mem_singleton.mp mem ▸ putHere under nofun
  | .mapping entries => leavesAllPut path entries
theorem leavesAllPut (path : String) : (entries : List (Key × Val)) → ∀ l ∈ leavesAll path entries, Put l
  | [] => fun l mem => absurd mem List.not_mem_nil
  | (k,v)::rest => fun l mem => by
    rcases List.mem_append.mp mem with here | there
    · exact leavesPut _ _ (secretJoin path) v l here
    · exact leavesAllPut path rest l there
end

theorem putList {l : Leaf} (is : Put l) (shown : isSecret l.path.toList = false) (holds : l.value.holds l.direct = true) :
    ∃ items, l.value = .list items := by
  cases value : l.value with
  | list items => exact ⟨items,rfl⟩
  | mapping entries => exact absurd value (is.plain entries)
  | null | scalar =>
    rw [value] at holds
    cases holds
  | str s =>
    rw [value] at holds
    rw [is.secret holds] at shown
    cases shown

end Shapes
end DevkitCommon.Nacosx.Secrets
