import Mathlib.Data.List.Infix

/-! Words cut out of a text one after another, each at all its places. What is cut out leaves a gap,
and no later word reaches over one: so a stretch that no word overlaps in part is cut as it is cut
where it stands alone. -/
namespace DevkitCommon.Cuts
variable {β κ : Type} [DecidableEq κ] {key : β → κ} {w : List κ} {new s t a b x y : List β} {n : Nat}

def replaceFrom (key : β → κ) (w : List κ) (new : List β) : Nat → List β → List β
  | _,[] => []
  | skip + 1,_::rest => replaceFrom key w new skip rest
  | 0,c::rest =>
    if w.isPrefixOf ((c::rest).map key) then new ++ replaceFrom key w new (w.length - 1) rest
    else c::replaceFrom key w new 0 rest

def replace (key : β → κ) (w : List κ) (new : List β) (t : List β) : List β := replaceFrom key w new 0 t

theorem replaceSkip (n : Nat) (t : List β) : replaceFrom key w new n t = replace key w new (t.drop n) := by
  unfold replace
  induction t generalizing n with
  | nil => rw [List.drop_nil,replaceFrom,replaceFrom]
  | cons c t ih =>
    cases n with
    | zero => rfl
    | succ n => exact ih n

theorem replaceWord (some' : w ≠ []) (is : x.map key = w) (rest : List β) :
    replace key w new (x ++ rest) = new ++ replace key w new rest := by
  cases x with
  | nil => exact absurd is.symm some'
  | cons c x =>
    have here : w <+: (c::(x ++ rest)).map key := by
      rw [← List.cons_append,List.map_append,is]
      exact List.prefix_append w _
    have long : w.length - 1 = x.length := by rw [← is,List.length_map]; rfl
    change replaceFrom key w new 0 (c::(x ++ rest)) = _
    rw [replaceFrom,if_pos (List.isPrefixOf_iff_prefix.mpr here),replaceSkip,long,List.drop_left]

theorem replaceNot {c : β} (not : ¬ w <+: (c::t).map key) : replace key w new (c::t) = c::replace key w new t := by
  rw [replace,replaceFrom,if_neg fun is => not (List.isPrefixOf_iff_prefix.mp is)]
  rfl

theorem replaceInduct (key : β → κ) {motive : List β → Prop} (some' : w ≠ []) (nil : motive [])
    (word : ∀ x rest, x.map key = w → motive rest → motive (x ++ rest))
    (symbol : ∀ c rest, ¬ w <+: (c::rest).map key → motive rest → motive (c::rest)) (t : List β) : motive t := by
  induction h : t.length using Nat.strong_induction_on generalizing t with
  | _ n ih =>
    cases t with
    | nil => exact nil
    | cons c t =>
      by_cases here : w <+: (c::t).map key
      · have first : ((c::t).take w.length).map key = w := by rw [List.map_take]; exact (List.prefix_iff_eq_take.mp here).symm
        have shorter : ((c::t).drop w.length).length < n := by
          have pos := List.length_pos_of_ne_nil some'
          rw [List.length_drop,h]
          have more : 0 < n := h ▸ Nat.succ_pos _
          omega
        rw [← List.take_append_drop w.length (c::t)]
        exact word _ _ first (ih _ shorter _ rfl)
      · exact symbol c t here (ih t.length (h ▸ Nat.lt_succ_self _) t rfl)

theorem replaceSplit (some' : w ≠ []) (a b : List β) :
    replace key w new (a ++ b) = replace key w new a ++ replace key w new b ∨
      ∃ a' x y b', a = a' ++ x ∧ b = y ++ b' ∧ x ≠ [] ∧ y ≠ [] ∧ (x ++ y).map key = w ∧
        replace key w new (a ++ b) = replace key w new a' ++ (new ++ replace key w new b') := by
  generalize whole : a ++ b = t
  induction t using replaceInduct key some' generalizing a with
  | nil =>
    obtain ⟨rfl,rfl⟩ := List.append_eq_nil_iff.mp whole
    exact .inl rfl
  | word x rest is ih =>
    have inside {a₁ : List β} (front : a = x ++ a₁) (back : rest = a₁ ++ b) :
        replace key w new (x ++ rest) = replace key w new a ++ replace key w new b ∨
          ∃ a' z y b', a = a' ++ z ∧ b = y ++ b' ∧ z ≠ [] ∧ y ≠ [] ∧ (z ++ y).map key = w ∧
            replace key w new (x ++ rest) = replace key w new a' ++ (new ++ replace key w new b') := by
      subst front
      rw [replaceWord some' is]
      rcases ih a₁ back.symm with apart | ⟨a',z,y,b',left,right,some₁,some₂,made,whole⟩
      · exact .inl (by rw [apart,replaceWord some' is,List.append_assoc])
      · refine .inr ⟨x ++ a',z,y,b',by rw [left,List.append_assoc],right,some₁,some₂,made,?_⟩
        rw [whole,replaceWord some' is,List.append_assoc]
    rcases List.append_eq_append_iff.mp whole with ⟨y,front,back⟩ | ⟨a₁,front,back⟩
    · by_cases none₁ : a = []
      · subst none₁
        exact .inl (by rw [← whole]; rfl)
      · by_cases none₂ : y = []
        · subst none₂
          rw [List.append_nil] at front
          have front' : a = x ++ [] := by rw [List.append_nil,front]
          exact inside front' back.symm
        · refine .inr ⟨[],a,y,rest,rfl,back,none₁,none₂,by rw [← front]; exact is,?_⟩
          exact replaceWord some' is rest
    · exact inside front back
  | symbol c rest not ih =>
    cases a with
    | nil => exact .inl (by rw [← whole]; rfl)
    | cons d a =>
      obtain ⟨rfl,same⟩ := List.cons.inj whole
      have front {t u : List β} (within : rest = t ++ u) : ¬ w <+: (d::t).map key := fun is => not (by
        rw [within,← List.cons_append,List.map_append]
        exact is.trans (List.prefix_append _ _))
      rw [replaceNot not]
      rcases ih a same with apart | ⟨a',z,y,b',left,right,some₁,some₂,made,whole⟩
      · exact .inl (by rw [apart,replaceNot (front same.symm)]; rfl)
      · refine .inr ⟨d::a',z,y,b',by rw [left]; rfl,right,some₁,some₂,made,?_⟩
        have within : rest = a' ++ (z ++ b) := by rw [← same,left]; exact List.append_assoc a' z b
        rw [whole,replaceNot (front within)]
        rfl

def cut (key : β → κ) (w : List κ) (t : List (Option β)) : List (Option β) := replace (Option.map key) (w.map some) [none] t

def cutAll (key : β → κ) (ws : List (List κ)) (t : List (Option β)) : List (Option β) := ws.foldl (fun t w => cut key w t) t

theorem cutKeeps {motive : List (Option β) → Prop} {ws : List (List κ)} {t : List (Option β)}
    (each : ∀ w ∈ ws, ∀ t, motive t → motive (cut key w t)) (start : motive t) : motive (cutAll key ws t) := by
  induction ws generalizing t with
  | nil => exact start
  | cons w ws ih => exact ih (fun u mem => each u (List.mem_cons_of_mem w mem)) (each w List.mem_cons_self t start)

structure Remains (t' t : List (Option β)) : Prop where
  front : ∀ x : List β, x.map some <+: t' → x.map some <+: t
  back : ∀ x : List β, x.map some <:+ t' → x.map some <:+ t
  whole : none ∉ t' → t' = t
  length : t'.length ≤ t.length
  of : ∀ e, some e ∈ t' → some e ∈ t

section Cutting
variable {r t u : List (Option β)} {v pre post : List β} {ws : List (List κ)} {c : β}

theorem gapMem (x : List β) : none ∉ x.map some := by
  intro mem
  obtain ⟨c,_,same⟩ := List.mem_map.mp mem
  cases same

theorem remainsSelf (t : List (Option β)) : Remains t t := ⟨fun _ => id,fun _ => id,fun _ => rfl,Nat.le_refl _,fun _ => id⟩

theorem remainsMore (gaps : none ∈ t → none ∈ r) (one : Remains r t) (more : Remains t u) : Remains r u := by
  refine ⟨fun x is => more.front x (one.front x is),fun x is => more.back x (one.back x is),fun none' => ?_,
    Nat.le_trans one.length more.length,fun e mem => more.of e (one.of e mem)⟩
  exact (one.whole none').trans (more.whole fun mem => none' (gaps mem))

omit [DecidableEq κ] in
theorem wordSome (some' : w ≠ []) : w.map some ≠ [] := fun empty => some' (List.map_eq_nil_iff.mp empty)

theorem cutWord (some' : w ≠ []) {z : List (Option β)} (is : z.map (Option.map key) = w.map some) (rest : List (Option β)) :
    cut key w (z ++ rest) = none::cut key w rest := replaceWord (wordSome some') is rest

theorem gapCut (some' : w ≠ []) (t : List (Option β)) : none ∈ t → none ∈ cut key w t := by
  induction t using replaceInduct (Option.map key) (wordSome some') with
  | nil => exact id
  | word z rest is ih =>
    rw [cutWord some' is]
    exact fun _ => List.mem_cons_self
  | symbol c rest not ih =>
    have next : cut key w (c::rest) = c::cut key w rest := replaceNot not
    rw [next,List.mem_cons,List.mem_cons]
    exact Or.imp_right ih

theorem remainsCut (some' : w ≠ []) (t : List (Option β)) : Remains (cut key w t) t := by
  induction t using replaceInduct (Option.map key) (wordSome some') with
  | nil => exact remainsSelf []
  | word z rest is ih =>
    have long : 1 ≤ z.length := by
      have same := congrArg List.length is
      rw [List.length_map,List.length_map] at same
      exact same ▸ List.length_pos_of_ne_nil some'
    rw [cutWord some' is]
    refine ⟨fun x front => ?_,fun x back => ?_,fun none' => absurd List.mem_cons_self none',?_,fun e mem => ?_⟩
    · cases x with
      | nil => exact List.nil_prefix
      | cons c x => exact absurd (List.cons_prefix_cons.mp front).1 (Option.some_ne_none c)
    · rcases List.suffix_cons_iff.mp back with same | later
      · exact absurd (same ▸ List.mem_cons_self) (gapMem x)
      · exact (ih.back x later).trans (List.suffix_append z rest)
    · rw [List.length_cons,List.length_append]
      have short := ih.length
      omega
    · rcases List.mem_cons.mp mem with same | later
      · cases same
      · exact List.mem_append_right z (ih.of e later)
  | symbol c rest not ih =>
    have next : cut key w (c::rest) = c::cut key w rest := replaceNot not
    rw [next]
    refine ⟨fun x front => ?_,fun x back => ?_,fun none' => ?_,Nat.succ_le_succ ih.length,fun e mem => ?_⟩
    · cases x with
      | nil => exact List.nil_prefix
      | cons d x =>
        obtain ⟨same,later⟩ := List.cons_prefix_cons.mp front
        exact List.cons_prefix_cons.mpr ⟨same,ih.front x later⟩
    · rcases List.suffix_cons_iff.mp back with same | later
      · have none' : none ∉ cut key w rest := fun mem => gapMem x (same ▸ List.mem_cons_of_mem c mem)
        rw [same,ih.whole none']
      · exact (ih.back x later).trans (List.suffix_cons c rest)
    · exact congrArg (c::·) (ih.whole fun mem => none' (List.mem_cons_of_mem c mem))
    · rcases List.mem_cons.mp mem with same | later
      · exact same ▸ List.mem_cons_self
      · exact List.mem_cons_of_mem c (ih.of e later)

omit [DecidableEq κ] in
theorem wordForm {z : List (Option β)} (is : z.map (Option.map key) = w.map some) : ∃ x : List β, z = x.map some ∧ x.map key = w := by
  induction z generalizing w with
  | nil =>
    obtain rfl := List.map_eq_nil_iff.mp is.symm
    exact ⟨[],rfl,rfl⟩
  | cons o z ih =>
    cases w with
    | nil => cases is
    | cons k w =>
      obtain ⟨first,rest⟩ := List.cons.inj is
      obtain ⟨c,rfl,rfl⟩ := Option.map_eq_some_iff.mp first
      obtain ⟨x,rfl,rfl⟩ := ih rest
      exact ⟨c::x,rfl,rfl⟩

structure Isolated (key : β → κ) (ws : List (List κ)) (pre v post : List β) : Prop where
  before : ∀ w ∈ ws, ∀ x y, x ≠ [] → y ≠ [] → (x ++ y).map key = w → x <:+ pre → y <+: v → y = v
  behind : ∀ w ∈ ws, ∀ x y, x ≠ [] → y ≠ [] → (x ++ y).map key = w → x <:+ v → y <+: post → x = v

section Around
variable {a b m : List (Option β)}

omit [DecidableEq κ] in
theorem frontOf (left : Remains t (v.map some)) (is : x.map some <+: t) : x <+: v :=
  (List.prefix_map_iff_of_injective (fun _ _ same => Option.some.inj same)).mp (left.front x is)

omit [DecidableEq κ] in
theorem backOf (left : Remains t (v.map some)) (is : x.map some <:+ t) : x <:+ v :=
  (List.suffix_map_iff_of_injective (fun _ _ same => Option.some.inj same)).mp (left.back x is)

omit [DecidableEq κ] in
theorem reachesOver (first : Remains a (pre.map some)) (mid : Remains m (v.map some)) (isolated : Isolated key ws pre v post)
    (mem : w ∈ ws) (xs : x.map some <:+ a) (ys : y.map some <+: m ++ b) (some₁ : x ≠ []) (some₂ : y ≠ [])
    (is : (x ++ y).map key = w) : m <+: y.map some := by
  rcases List.prefix_or_prefix_of_prefix ys (List.prefix_append m b) with inside | across
  · obtain rfl := isolated.before w mem x y some₁ some₂ is (backOf first xs) (frontOf mid inside)
    have long : m.length ≤ (y.map some).length := mid.length
    rw [inside.eq_of_length_le long]
  · exact across

omit [DecidableEq κ] in
theorem reachesBack (mid : Remains m (v.map some)) (last : Remains b (post.map some)) (isolated : Isolated key ws pre v post)
    (mem : w ∈ ws) (xs : x.map some <:+ m) (ys : y.map some <+: b) (some₁ : x ≠ []) (some₂ : y ≠ [])
    (is : (x ++ y).map key = w) : m = x.map some := by
  obtain rfl := isolated.behind w mem x y some₁ some₂ is (backOf mid xs) (frontOf last ys)
  have long : m.length ≤ (x.map some).length := mid.length
  exact (xs.eq_of_length_le long).symm

def Gone (pre post : List β) (t : List (Option β)) : Prop := ∀ c, some c ∈ t → c ∈ pre ∨ c ∈ post

omit [DecidableEq κ] in
theorem memLeft (left : Remains t (v.map some)) (mem : some c ∈ t) : c ∈ v := by
  obtain ⟨d,there,same⟩ := List.mem_map.mp (left.of c mem)
  exact Option.some.inj same ▸ there

theorem cutStep (first : Remains a (pre.map some)) (mid : Remains m (v.map some)) (last : Remains b (post.map some))
    (isolated : Isolated key ws pre v post) (mem : w ∈ ws) (some' : w ≠ []) :
    cut key w (a ++ (m ++ b)) = cut key w a ++ (cut key w m ++ cut key w b) ∨ Gone pre post (cut key w (a ++ (m ++ b))) := by
  have before {t : List (Option β)} (part : ∀ c, some c ∈ t → some c ∈ a) {c : β} (mem : some c ∈ cut key w t) : c ∈ pre :=
    memLeft first (part c ((remainsCut some' t).of c mem))
  have behind {t : List (Option β)} (part : ∀ c, some c ∈ t → some c ∈ b) {c : β} (mem : some c ∈ cut key w t) : c ∈ post :=
    memLeft last (part c ((remainsCut some' t).of c mem))
  rcases replaceSplit (wordSome some') a (m ++ b) with apart | ⟨a',z,z',b',front,back,some₁,some₂,is,whole⟩
  · rcases replaceSplit (wordSome some') m b with apart' | ⟨m',z,z',b',front,back,some₁,some₂,is,whole⟩
    · exact .inl (apart.trans (congrArg (cut key w a ++ ·) apart'))
    · obtain ⟨xy,form,made⟩ := wordForm is
      obtain ⟨x,y,rfl,rfl,rfl⟩ := List.append_eq_map_iff.mp form
      have all : m = x.map some := by
        refine reachesBack mid last isolated mem ?_ ?_ ?_ ?_ made
        · exact front ▸ List.suffix_append m' _
        · exact back ▸ List.prefix_append _ b'
        · exact fun empty => some₁ (by rw [empty]; rfl)
        · exact fun empty => some₂ (by rw [empty]; rfl)
      have none' : m' = [] := by
        rw [all] at front
        exact List.self_eq_append_left.mp front
      subst none'
      refine .inr fun c mem => ?_
      have split : cut key w (a ++ (m ++ b)) = cut key w a ++ (none::cut key w b') := by
        refine apart.trans (congrArg (cut key w a ++ ·) (whole.trans ?_))
        rfl
      rw [split,List.mem_append,List.mem_cons] at mem
      rcases mem with one | same | other
      · exact .inl (before (fun _ => id) one)
      · cases same
      · exact .inr (behind (fun d inside => back ▸ List.mem_append_right _ inside) other)
  · obtain ⟨xy,form,made⟩ := wordForm is
    obtain ⟨x,y,rfl,rfl,rfl⟩ := List.append_eq_map_iff.mp form
    have across : m <+: y.map some := by
      refine reachesOver (b := b) first mid isolated mem ?_ ?_ ?_ ?_ made
      · exact front ▸ List.suffix_append a' _
      · exact back ▸ List.prefix_append _ b'
      · exact fun empty => some₁ (by rw [empty]; rfl)
      · exact fun empty => some₂ (by rw [empty]; rfl)
    obtain ⟨rest,more⟩ := across
    have tail : b = rest ++ b' := by
      rw [← more,List.append_assoc] at back
      exact List.append_cancel_left back
    refine .inr fun c mem => ?_
    have split : cut key w (a ++ (m ++ b)) = cut key w a' ++ (none::cut key w b') := whole
    rw [split,List.mem_append,List.mem_cons] at mem
    rcases mem with one | same | other
    · exact .inl (before (fun d inside => front ▸ List.mem_append_left _ inside) one)
    · cases same
    · exact .inr (behind (fun d inside => tail ▸ List.mem_append_right _ inside) other)

theorem goneCut (some' : w ≠ []) (gone : Gone pre post t) : Gone pre post (cut key w t) :=
  fun c mem => gone c ((remainsCut some' t).of c mem)

/- The induction is on the words that are left, and what is left of the text beside v has not moved
towards it. -/
theorem cutsAround {us : List (List κ)} (isolated : Isolated key ws pre v post) (more : ∀ w ∈ us, w ∈ ws ∧ w ≠ [])
    (first : Remains a (pre.map some)) (mid : Remains m (v.map some)) (last : Remains b (post.map some)) :
    (∃ a' b', cutAll key us (a ++ (m ++ b)) = a' ++ (cutAll key us m ++ b') ∧ Remains a' (pre.map some) ∧
        Remains b' (post.map some)) ∨ Gone pre post (cutAll key us (a ++ (m ++ b))) := by
  induction us generalizing a m b with
  | nil => exact .inl ⟨a,b,rfl,first,last⟩
  | cons w us ih =>
    obtain ⟨mem,some'⟩ := more w List.mem_cons_self
    have rest : ∀ u ∈ us, u ∈ ws ∧ u ≠ [] := fun u there => more u (List.mem_cons_of_mem w there)
    have next {t u : List (Option β)} (left : Remains t u) : Remains (cut key w t) u :=
      remainsMore (gapCut some' t) (remainsCut some' t) left
    change (∃ a' b', cutAll key us (cut key w (a ++ (m ++ b))) = a' ++ (cutAll key us (cut key w m) ++ b') ∧ _) ∨
      Gone pre post (cutAll key us (cut key w (a ++ (m ++ b))))
    rcases cutStep first mid last isolated mem some' with apart | gone
    · rw [apart]
      exact ih rest (next first) (next mid) (next last)
    · exact .inr (cutKeeps (motive := Gone pre post) (fun u there _ => goneCut (rest u there).2) gone)

theorem remainsAll (all : ∀ w ∈ ws, w ≠ []) (t : List (Option β)) : Remains (cutAll key ws t) t := by
  induction ws generalizing t with
  | nil => exact remainsSelf t
  | cons w ws ih =>
    have rest : ∀ u ∈ ws, u ≠ [] := fun u mem => all u (List.mem_cons_of_mem w mem)
    have gaps : none ∈ cut key w t → none ∈ cutAll key ws (cut key w t) :=
      cutKeeps (motive := (none ∈ ·)) fun u mem r => gapCut (rest u mem) r
    exact remainsMore gaps (ih rest (cut key w t)) (remainsCut (all w List.mem_cons_self) t)

def UsedUp (ws : List (List κ)) (t : List κ) : Prop := ∀ o ∈ cutAll id ws (t.map some), o = none

theorem mapReplace {γ : Type} (f : β → γ) (own : γ → κ) (some' : w ≠ []) (same : ∀ c, own (f c) = key c) (t : List β) :
    (replace key w new t).map f = replace own w (new.map f) (t.map f) := by
  have keys (x : List β) : (x.map f).map own = x.map key := by
    rw [List.map_map]
    exact List.map_congr_left fun c _ => same c
  induction t using replaceInduct key some' with
  | nil => rfl
  | word x rest is ih =>
    have is' : (x.map f).map own = w := (keys x).trans is
    rw [replaceWord some' is,List.map_append,List.map_append,replaceWord some' is',ih]
  | symbol c rest not ih =>
    have not' : ¬ w <+: ((c::rest).map f).map own := by rwa [keys]
    rw [replaceNot not,List.map_cons,ih]
    exact (replaceNot not').symm

theorem mapCutAll (key : β → κ) (all : ∀ w ∈ ws, w ≠ []) (t : List (Option β)) :
    (cutAll key ws t).map (Option.map key) = cutAll id ws (t.map (Option.map key)) := by
  induction ws generalizing t with
  | nil => rfl
  | cons w ws ih =>
    have one : (cut key w t).map (Option.map key) = cut id w (t.map (Option.map key)) :=
      mapReplace (Option.map key) (Option.map id) (wordSome (all w List.mem_cons_self)) (fun o => by cases o <;> rfl) t
    exact (ih (fun u mem => all u (List.mem_cons_of_mem w mem)) _).trans (congrArg (cutAll id ws) one)

theorem isolatedGone (all : ∀ w ∈ ws, w ≠ []) (isolated : Isolated key ws pre v post) (used : UsedUp ws (v.map key)) :
    Gone pre post (cutAll key ws ((pre ++ (v ++ post)).map some)) := by
  rw [List.map_append,List.map_append]
  rcases cutsAround isolated (fun w mem => ⟨mem,all w mem⟩) (remainsSelf _) (remainsSelf _) (remainsSelf _) with
    ⟨a,b,split,first,last⟩ | gone
  · rw [split]
    intro c mem
    rcases List.mem_append.mp mem with one | rest
    · exact .inl (memLeft first one)
    · rcases List.mem_append.mp rest with inside | other
      · have alone := mapCutAll key all (v.map some)
        have keys : (v.map some).map (Option.map key) = (v.map key).map some := by
          rw [List.map_map,List.map_map]
          rfl
        have there : some (key c) ∈ cutAll id ws ((v.map key).map some) := by
          rw [← keys,← alone]
          exact List.mem_map.mpr ⟨some c,inside,rfl⟩
        cases used _ there
      · exact .inr (memLeft last other)
  · exact gone

end Around
end Cutting
section Masks
variable (star : β) {r t : List (Option β)} {ws : List (List κ)} {u : List κ}

def render (star : β) (n : Nat) (t : List (Option β)) : List β :=
  t.flatMap fun o => (o.map fun c => [c]).getD (List.replicate n star)

structure Inert (star : κ) (n : Nat) (w : List κ) : Prop where
  head : w.head? ≠ some star
  last : w.getLast? ≠ some star
  inside : ¬ List.replicate n star <:+: w

omit [DecidableEq κ] in
theorem renderPlain (star : β) (n : Nat) (s : List β) : render star n (s.map some) = s := by
  induction s with
  | nil => rfl
  | cons c s ih => exact congrArg (c::·) ih

omit [DecidableEq κ] in
theorem windowInert (inert : Inert (key star) n w) (rest : u <:+ w) (t : List (Option β))
    (here : u <+: (render star n t).map key) : u.map some <+: t.map (Option.map key) := by
  induction t generalizing u with
  | nil => exact List.prefix_nil.mp here ▸ List.nil_prefix
  | cons o t ih =>
    cases u with
    | nil => exact List.nil_prefix
    | cons k u =>
      cases o with
      | some c =>
        obtain ⟨same,later⟩ := List.cons_prefix_cons.mp here
        have shorter : u <:+ w := (List.suffix_cons k u).trans rest
        exact List.cons_prefix_cons.mpr ⟨congrArg some same,ih shorter later⟩
      | none =>
        have mask : (render star n (none::t)).map key = List.replicate n (key star) ++ (render star n t).map key := by
          change (List.replicate n star ++ render star n t).map key = _
          rw [List.map_append,List.map_replicate]
        rw [mask] at here
        rcases List.prefix_or_prefix_of_prefix here (List.prefix_append _ _) with stars | across
        · refine absurd ?_ inert.last
          have same : (k::u).getLast? = w.getLast? := by
            obtain ⟨front,rfl⟩ := rest
            rw [List.getLast?_append_of_ne_nil front (List.cons_ne_nil k u)]
          have end' := List.getLast_mem (List.cons_ne_nil k u)
          have star' := List.eq_of_mem_replicate (stars.subset end')
          rw [← same,List.getLast?_eq_some_getLast (List.cons_ne_nil k u),star']
        · exact absurd (across.isInfix.trans rest.isInfix) inert.inside

theorem renderCut (some' : w ≠ []) (window : ∀ u, u <:+ t → w <+: (render star n u).map key → w.map some <+: u.map (Option.map key))
    (head : none ∈ t → w.head? ≠ some (key star)) :
    replace key w (List.replicate n star) (render star n t) = render star n (cut key w t) := by
  induction t using replaceInduct (Option.map key) (wordSome some') with
  | nil => rfl
  | word z rest is ih =>
    obtain ⟨x,rfl,made⟩ := wordForm is
    have text : render star n (x.map some ++ rest) = x ++ render star n rest := by
      unfold render
      rw [List.flatMap_append]
      exact congrArg (· ++ _) (renderPlain star n x)
    rw [text,replaceWord some' made,cutWord some' is,ih (fun u within => window u (within.trans (List.suffix_append _ rest)))
      fun mem => head (List.mem_append_right _ mem)]
    rfl
  | symbol o rest not ih =>
    have next : cut key w (o::rest) = o::cut key w rest := replaceNot not
    have later := ih (fun u within => window u (within.trans (List.suffix_cons o rest))) fun mem => head (List.mem_cons_of_mem o mem)
    rw [next]
    cases o with
    | some c =>
      have not' : ¬ w <+: (c::render star n rest).map key := fun is => not (window _ List.suffix_rfl is)
      change replace key w _ (c::render star n rest) = c::render star n (cut key w rest)
      rw [replaceNot not',later]
    | none =>
      have other := head List.mem_cons_self
      change replace key w _ (List.replicate n star ++ render star n rest) = List.replicate n star ++ render star n (cut key w rest)
      rw [← later]
      have across (i : Nat) (t : List β) : replace key w (List.replicate n star) (List.replicate i star ++ t) =
          List.replicate i star ++ replace key w (List.replicate n star) t := by
        induction i with
        | zero => rfl
        | succ i ih =>
          have not' : ¬ w <+: (star::(List.replicate i star ++ t)).map key := by
            intro is
            cases w with
            | nil => exact some' rfl
            | cons k w => exact other (congrArg some (List.cons_prefix_cons.mp is).1)
          rw [List.replicate_succ,List.cons_append,replaceNot not',ih]
          rfl
      exact across n _

theorem renderAll (all : ∀ w ∈ ws, w ≠ []) (inert : ∀ w ∈ ws.tail, Inert (key star) n w) (s : List β) :
    ws.foldl (fun s w => replace key w (List.replicate n star) s) s = render star n (cutAll key ws (s.map some)) := by
  have later (ws : List (List κ)) (all : ∀ w ∈ ws, w ≠ []) (inert : ∀ w ∈ ws, Inert (key star) n w) (t : List (Option β)) :
      ws.foldl (fun s w => replace key w (List.replicate n star) s) (render star n t) = render star n (cutAll key ws t) := by
    induction ws generalizing t with
    | nil => rfl
    | cons w ws ih =>
      have own := inert w List.mem_cons_self
      have one := renderCut star (t := t) (all w List.mem_cons_self) (fun u _ => windowInert star own List.suffix_rfl u) fun _ => own.head
      rw [List.foldl_cons,one]
      exact ih (fun u mem => all u (List.mem_cons_of_mem w mem)) (fun u mem => inert u (List.mem_cons_of_mem w mem)) _
  cases ws with
  | nil => exact (renderPlain star n s).symm
  | cons w ws =>
    have whole : ∀ u : List (Option β), u <:+ s.map some → w <+: (render star n u).map key → w.map some <+: u.map (Option.map key) := by
      intro u within is
      obtain ⟨v,rfl⟩ : ∃ v : List β, u = v.map some := by
        obtain ⟨front,same⟩ := within
        obtain ⟨_,v,_,_,made⟩ := List.append_eq_map_iff.mp same
        exact ⟨v,made.symm⟩
      rw [renderPlain] at is
      have keys : (v.map some).map (Option.map key) = (v.map key).map some := by
        rw [List.map_map,List.map_map]
        rfl
      rw [keys]
      exact is.map some
    have first := renderCut star (n := n) (all w List.mem_cons_self) whole fun mem => absurd mem (gapMem s)
    rw [renderPlain] at first
    rw [List.foldl_cons,first]
    exact later ws (fun u mem => all u (List.mem_cons_of_mem w mem)) inert _

end Masks
end DevkitCommon.Cuts
