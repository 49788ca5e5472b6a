import DevkitCommon.Lib.Pairs
import DevkitCommon.Nacosx.Hidden

/-! Two documents that differ in secrets only, in the log: what is kept of them stands at the same
paths, their settings are the same text, and a third document changes into either alike. -/
namespace DevkitCommon.Nacosx.Secrets
open Words Pairs

section Kept
variable {before : Key → Key → Bool} {a b v : Val} {l : Leaf}

theorem keepMap {f : Leaf → Leaf} (same : ∀ l, (f l).path = l.path) (out ls : List Leaf) :
    (ls.map f).foldl keep (out.map f) = (ls.foldl keep out).map f := by
  induction ls generalizing out with
  | nil => rfl
  | cons l ls ih =>
    have step : keep (out.map f) (f l) = (keep out l).map f := by
      rw [keep,keep,List.filter_map,List.map_append,List.map_singleton,same l]
      have kept : (fun e : Leaf => e.path != l.path) ∘ f = fun e => e.path != l.path := funext fun e => by
        rw [Function.comp_apply,same e]
      rw [kept]
    rw [List.map_cons,List.foldl_cons,List.foldl_cons,step]
    exact ih (keep out l)

theorem putEntries (out ls : List Leaf) :
    (ls.map (Leaf.entry before)).foldl put (out.map (Leaf.entry before)) = (ls.foldl keep out).map (Leaf.entry before) := by
  induction ls generalizing out with
  | nil => rfl
  | cons l ls ih =>
    have step : put (out.map (Leaf.entry before)) (l.entry before) = (keep out l).map (Leaf.entry before) := by
      rw [put,keep,List.filter_map,List.map_append,List.map_singleton]
      rfl
    rw [List.map_cons,List.foldl_cons,List.foldl_cons,step]
    exact ih (keep out l)

theorem flattenKept (v : Val) : flatten before v = v.kept.map (Leaf.entry before) := by
  rw [flatten,Nacosx.flatten,walkLeaves before "" false v]
  exact putEntries [] _

theorem keptSecrets (f : String → String) (v : Val) : (v.secrets f false).kept = v.kept.map (Leaf.secrets f) := by
  rw [Val.kept,leavesSecrets]
  exact keepMap (f := Leaf.secrets f) (fun _ => rfl) [] _

theorem memKeep (out ls : List Leaf) (mem : l ∈ ls.foldl keep out) : l ∈ out ∨ l ∈ ls := by
  induction ls generalizing out with
  | nil => exact .inl mem
  | cons m ls ih =>
    rcases ih (keep out m) mem with old | more
    · rcases List.mem_append.mp old with old | new
      · exact .inl (List.mem_filter.mp old).1
      · exact .inr (List.mem_cons.mpr (.inl (List.mem_singleton.mp new)))
    · exact .inr (List.mem_cons_of_mem m more)

theorem keptPut (mem : l ∈ v.kept) : Put l := by
  rcases memKeep [] _ mem with none | there
  · exact absurd none List.not_mem_nil
  · exact leavesPut "" false nofun v l there

theorem keepNodup (out ls : List Leaf) (apart : (out.map Leaf.path).Nodup) : ((ls.foldl keep out).map Leaf.path).Nodup := by
  induction ls generalizing out with
  | nil => exact apart
  | cons l ls ih =>
    refine ih (keep out l) ?_
    rw [keep,List.map_append,List.map_singleton]
    refine List.Nodup.append (apart.sublist (List.filter_sublist.map _)) (List.nodup_singleton _) ?_
    intro path old new
    obtain ⟨m,mem,rfl⟩ := List.mem_map.mp old
    exact absurd (List.mem_singleton.mp new) (bne_iff_ne.mp (List.mem_filter.mp mem).2)

theorem keptNodup (v : Val) : (v.kept.map Leaf.path).Nodup := keepNodup [] _ List.nodup_nil

theorem flattenNodup (v : Val) : ((flatten before v).map Prod.fst).Nodup := by
  rw [flattenKept,List.map_map]
  exact keptNodup v

end Kept
section Told
variable {before : Key → Key → Bool} {a b : Val} {held : String → Bool} {s t : List (String × String)}

structure Same (held : String → Bool) (path x y : String) : Prop where
  shown : mask path x = mask path y
  value : x = y ∨ held path = true

def Told (held : String → Bool) (e f : String × String) : Prop := e.1 = f.1 ∧ Same held e.1 e.2 f.2

theorem maskShown {path value : String} (shown : isSecret path.toList = false) (plain : listMasked value.toList = false) :
    mask path value = value := by
  rw [mask,shown,plain]
  rfl

theorem toldLeaves (hidden : Hidden before a) {l m : Leaf} (mem : l ∈ a.kept)
    (alike : l.secrets (fun _ => "") = m.secrets (fun _ => "")) : Told a.holdsAt (l.entry before) (m.entry before) := by
  obtain ⟨path,direct,v⟩ := l
  obtain ⟨path',direct',w⟩ := m
  simp only [Leaf.secrets,Leaf.mk.injEq] at alike
  obtain ⟨rfl,rfl,blank⟩ := alike
  have held : v.holds direct = w.holds direct := by
    rw [← holdsSecrets (fun _ => "") direct v,blank,holdsSecrets]
  refine ⟨rfl,?_⟩
  cases holds : v.holds direct with
  | false =>
    have same : v = w := by
      rw [← secretsSame (fun _ => "") direct v (.inl holds),blank,secretsSame (fun _ => "") direct w (.inl (held ▸ holds))]
    exact same ▸ ⟨rfl,.inl rfl⟩
  | true =>
    have at' : a.holdsAt path = true :=
      List.any_eq_true.mpr ⟨_,mem,(Bool.and_eq_true _ _).mpr ⟨beq_self_eq_true path,holds⟩⟩
    refine ⟨?_,.inr at'⟩
    cases secret : isSecret path.toList with
    | true => simp only [Leaf.entry,mask,secret,if_true]
    | false =>
      obtain ⟨items,rfl⟩ := putList (keptPut mem) secret holds
      obtain ⟨items',rfl⟩ : ∃ items', w = .list items' := by
        cases w with
        | list items' => exact ⟨items',rfl⟩
        | null | scalar | str | mapping => cases blank
      have masked := hidden _ mem secret holds
      have masked' : listMasked (((Val.list items').secrets (fun _ => filler 'z') direct).leaf before) = true := by
        rw [← secretsTwice (fun _ => "") (fun _ => filler 'z') direct (.list items'),← blank,secretsTwice]
        exact masked
      have one := maskedKept fillsFiller.1 id masked
      have other := maskedKept fillsFiller.1 id masked'
      rw [secretsSame id direct _ (.inr fun _ => rfl)] at one other
      simp only [Leaf.entry,mask,secret,String.toList_ofList,one,other,if_true]

theorem toldAlike (hidden : Hidden before a) (alike : Alike a b) : List.Forall₂ (Told a.holdsAt) (flatten before a) (flatten before b) := by
  have same : a.kept.map (Leaf.secrets fun _ => "") = b.kept.map (Leaf.secrets fun _ => "") := by
    rw [← keptSecrets,← keptSecrets]
    exact congrArg Val.kept alike
  have pairs : List.Forall₂ (fun l m => l.secrets (fun _ => "") = m.secrets (fun _ => "")) a.kept b.kept :=
    List.forall₂_map_left_iff.mp (List.forall₂_map_right_iff.mp (List.forall₂_eq_eq_eq ▸ same))
  have members := (List.forall₂_and_left _ _).mpr ⟨fun _ mem => mem,pairs⟩
  rw [flattenKept,flattenKept,List.forall₂_map_left_iff,List.forall₂_map_right_iff]
  exact members.imp fun l m both => toldLeaves hidden both.1 both.2

theorem toldLookup (told : List.Forall₂ (Told held) s t) (path : String) :
    Option.Rel (Same held path) (s.lookup path) (t.lookup path) := by
  induction told with
  | nil => exact .none
  | cons first more ih =>
    rename_i e f s t
    obtain ⟨key,x⟩ := e
    obtain ⟨key',y⟩ := f
    obtain ⟨rfl,same⟩ := first
    rw [List.lookup_cons,List.lookup_cons]
    cases here : path == key with
    | true =>
      obtain rfl := beq_iff_eq.mp here
      exact .some same
    | false => exact ih

theorem sameRefl (s : List (String × String)) (path : String) : Option.Rel (Same held path) (s.lookup path) (s.lookup path) := by
  cases s.lookup path with
  | none => exact .none
  | some x => exact .some ⟨rfl,.inl rfl⟩

end Told
section Settings
variable {s t : List (String × String)}

def tell (e : String × String) : String × String := (e.1,mask e.1 e.2)

theorem sortedTell (s : List (String × String)) : (sorted s).map tell = sorted (s.map tell) :=
  List.map_insertionSort _ _ _ s fun _ _ _ _ => Iff.rfl

def member (e : String × String) : Text := quoted e.1 ++ ':'::quoted e.2

def members (s : List (String × String)) : Text := [','].intercalate (s.map member) ++ ['\x7d']

theorem marshalTold (s : List (String × String)) : marshalJSON s = '\x7b'::members (sorted (s.map tell)) := by
  rw [← sortedTell,members,List.map_map]
  rfl

theorem blockTold (same : s.map tell = t.map tell) : logBlock s = logBlock t := by
  have whole (s : List (String × String)) : logBlock s =
      (let keys := sorted (s.map tell)
      let width := keys.foldl (fun w e => max w (byteLength e.1.toList)) 0
      let lines := (keys.take maxSettingLines).flatMap fun e => padded width e.1 ++ ' ' :: ' ' :: (e.2.toList ++ ['\n'])
      lines ++ if keys.length ≤ maxSettingLines then [] else s!"... and {keys.length - maxSettingLines} more\n".toList) := by
    rw [← sortedTell]
    dsimp only
    rw [List.foldl_map,← List.map_take,List.flatMap_map,List.length_map]
    rfl
  rw [whole,whole,same]

theorem escapeFront (c : Char) : ∃ d t, JSON.escape c = d::t ∧ d ≠ '"' := by
  have slash : '\\' ≠ '"' := by decide
  unfold JSON.escape
  split
  · exact ⟨_,_,rfl,slash⟩
  · rename_i plain
    split
    · exact ⟨_,_,rfl,slash⟩
    · split
      · exact ⟨_,_,rfl,slash⟩
      · split
        · exact ⟨_,_,rfl,slash⟩
        · split
          · exact ⟨_,_,rfl,slash⟩
          · split
            · exact ⟨_,_,rfl,slash⟩
            · split
              · exact ⟨_,_,rfl,slash⟩
              · exact ⟨c,[],rfl,fun same => plain (.inl same)⟩

theorem bodySame (x y u v : Text) (same : x.flatMap JSON.escape ++ '"'::u = y.flatMap JSON.escape ++ '"'::v) : x = y ∧ u = v := by
  induction x generalizing y with
  | nil =>
    cases y with
    | nil => exact ⟨rfl,(List.cons.inj same).2⟩
    | cons d y =>
      obtain ⟨e,t,is,other⟩ := escapeFront d
      rw [List.flatMap_cons,is] at same
      exact absurd (List.cons.inj same).1.symm other
  | cons c x ih =>
    cases y with
    | nil =>
      obtain ⟨e,t,is,other⟩ := escapeFront c
      rw [List.flatMap_cons,is] at same
      exact absurd (List.cons.inj same).1 other
    | cons d y =>
      rw [List.flatMap_cons,List.flatMap_cons,List.append_assoc,List.append_assoc] at same
      have read := congrArg JSON.unescape same
      rw [JSON.unescapeEscape,JSON.unescapeEscape] at read
      obtain ⟨rfl,_⟩ := List.cons.inj read
      obtain ⟨rfl,rest⟩ := ih y (List.append_cancel_left same)
      exact ⟨rfl,rest⟩

theorem quotedSame {x y : String} {u v : Text} (same : quoted x ++ u = quoted y ++ v) : x = y ∧ u = v := by
  rw [quoted,quoted,List.cons_append,List.cons_append,List.append_assoc,List.append_assoc] at same
  have inner := (List.cons.inj same).2
  obtain ⟨chars,rest⟩ := bodySame _ _ _ _ inner
  exact ⟨String.toList_inj.mp chars,rest⟩

def tail : List (String × String) → Text
  | [] => ['\x7d']
  | e::es => ','::members (e::es)

theorem membersCons (e : String × String) (es : List (String × String)) :
    members (e::es) = quoted e.1 ++ ':'::(quoted e.2 ++ tail es) := by
  cases es with
  | nil => simp only [members,member,tail,List.map_cons,List.map_nil,List.intercalate_singleton,List.append_assoc,List.cons_append]
  | cons f es =>
    simp only [members,tail,List.map_cons,List.intercalate_cons_cons]
    simp only [member,List.append_assoc,List.cons_append,List.nil_append]

theorem membersSame (same : members s = members t) : s = t := by
  induction s generalizing t with
  | nil =>
    cases t with
    | nil => rfl
    | cons f t =>
      rw [membersCons] at same
      exact absurd (List.cons.inj same).1 (by decide)
  | cons e s ih =>
    cases t with
    | nil =>
      rw [membersCons] at same
      exact absurd (List.cons.inj same).1 (by decide)
    | cons f t =>
      rw [membersCons,membersCons] at same
      obtain ⟨key,behind⟩ := quotedSame same
      obtain ⟨value,rest⟩ := quotedSame (List.cons.inj behind).2
      have more : s = t := by
        cases s with
        | nil =>
          cases t with
          | nil => rfl
          | cons => exact absurd (List.cons.inj rest).1 (by decide)
        | cons =>
          cases t with
          | nil => exact absurd (List.cons.inj rest).1 (by decide)
          | cons => exact ih (List.cons.inj rest).2
      exact congrArg₂ List.cons (Prod.ext key value) more

theorem marshalSame (same : marshalJSON s = marshalJSON t) : (s.map tell).Perm (t.map tell) := by
  rw [marshalTold,marshalTold] at same
  have sortedSame : sorted (s.map tell) = sorted (t.map tell) := membersSame (List.cons.inj same).2
  have one : (sorted (s.map tell)).Perm (s.map tell) := List.perm_insertionSort _ _
  have other : (sorted (t.map tell)).Perm (t.map tell) := List.perm_insertionSort _ _
  exact one.symm.trans (sortedSame ▸ other)

end Settings
section Changes
variable {old old' cur cur' : List (String × String)} {held : String → Bool} {c d : Change} {key value : String}

def Paths (s : List (String × String)) : Prop := (s.map Prod.fst).Nodup

def changeAt (old cur : List (String × String)) (key : String) : Option Change := match old.lookup key,cur.lookup key with
  | none,none => none
  | none,some now => some ⟨"added",key,"",mask key now⟩
  | some was,some now => if was = now then none else some ⟨"changed",key,mask key was,mask key now⟩
  | some was,none => some ⟨"removed",key,mask key was,""⟩

theorem memDiff (was : Paths old) (now : Paths cur) : c ∈ diff old cur ↔ changeAt old cur c.key = some c := by
  unfold diff
  rw [List.mem_insertionSort,List.mem_append,List.mem_filterMap,List.mem_filterMap]
  constructor
  · rintro (⟨⟨key,value⟩,mem,is⟩ | ⟨⟨key,value⟩,mem,is⟩)
    · have found := (lookupIff now).mpr mem
      unfold entered at is
      cases look : old.lookup key with
      | none =>
        simp only [look] at is
        obtain rfl := Option.some.inj is
        simp only [changeAt,look,found]
      | some before' =>
        simp only [look] at is
        split at is
        · cases is
        · rename_i differ
          obtain rfl := Option.some.inj is
          simp only [changeAt,look,found,differ,if_false]
    · have found := (lookupIff was).mpr mem
      unfold left at is
      cases look : cur.lookup key with
      | none =>
        simp only [look] at is
        obtain rfl := Option.some.inj is
        simp only [changeAt,look,found]
      | some now' =>
        simp only [look] at is
        cases is
  · intro is
    unfold changeAt at is
    cases one : old.lookup c.key with
    | none =>
      cases other : cur.lookup c.key with
      | none =>
        simp only [one,other] at is
        cases is
      | some value =>
        simp only [one,other] at is
        exact .inl ⟨_,(lookupIff now).mp other,by simp only [entered,one]; exact is⟩
    | some before' =>
      cases other : cur.lookup c.key with
      | none =>
        simp only [one,other] at is
        exact .inr ⟨_,(lookupIff was).mp one,by simp only [left,other]; exact is⟩
      | some value =>
        simp only [one,other] at is
        exact .inl ⟨_,(lookupIff now).mp other,by simp only [entered,one]; exact is⟩

theorem filterKeys {f : String × String → Option Change} (keys : ∀ e c, f e = some c → c.key = e.1) (s : List (String × String)) :
    ((s.filterMap f).map Change.key).Sublist (s.map Prod.fst) := by
  induction s with
  | nil => exact .slnil
  | cons e s ih =>
    cases is : f e with
    | none =>
      rw [List.filterMap_cons_none is]
      exact ih.cons _
    | some c =>
      rw [List.filterMap_cons_some is,List.map_cons,List.map_cons,keys e c is]
      exact ih.cons_cons _

theorem enteredKey (e : String × String) (c : Change) (is : entered old e = some c) : c.key = e.1 := by
  unfold entered at is
  split at is
  · obtain rfl := Option.some.inj is
    rfl
  · split at is
    · cases is
    · obtain rfl := Option.some.inj is
      rfl

theorem leftKey (e : String × String) (c : Change) (is : left cur e = some c) : c.key = e.1 ∧ cur.lookup e.1 = none := by
  unfold left at is
  split at is
  · rename_i none
    obtain rfl := Option.some.inj is
    exact ⟨rfl,none⟩
  · cases is

theorem diffNodup (was : Paths old) (now : Paths cur) : ((diff old cur).map Change.key).Nodup := by
  unfold diff
  rw [((List.perm_insertionSort _ _).map Change.key).nodup_iff,List.map_append]
  refine List.Nodup.append (now.sublist (filterKeys enteredKey cur)) (was.sublist (filterKeys (fun e c is => (leftKey e c is).1) old)) ?_
  intro key new gone
  obtain ⟨e,mem,rfl⟩ := List.mem_map.mp ((filterKeys enteredKey cur).subset new)
  obtain ⟨c,there,same⟩ := List.mem_map.mp gone
  obtain ⟨f,_,is⟩ := List.mem_filterMap.mp there
  obtain ⟨at',none⟩ := leftKey f c is
  have found := (lookupIff now).mpr (show (e.1,e.2) ∈ cur from mem)
  rw [← same,at',none] at found
  cases found

theorem changeSame (olds : Option.Rel (Same held key) (old.lookup key) (old'.lookup key))
    (curs : Option.Rel (Same held key) (cur.lookup key) (cur'.lookup key)) :
    (held key = false → changeAt old cur key = changeAt old' cur' key) ∧
      ∀ c d, changeAt old cur key = some c → changeAt old' cur' key = some d → c = d := by
  unfold changeAt
  generalize old.lookup key = w at olds ⊢
  generalize old'.lookup key = x at olds ⊢
  generalize cur.lookup key = y at curs ⊢
  generalize cur'.lookup key = z at curs ⊢
  cases olds with
  | none =>
    cases curs with
    | none => exact ⟨fun _ => rfl,nofun⟩
    | some same =>
      dsimp only
      rw [same.shown]
      exact ⟨fun _ => rfl,fun c d is other => Option.some.inj (is.symm.trans other)⟩
  | some was =>
    cases curs with
    | none =>
      dsimp only
      rw [was.shown]
      exact ⟨fun _ => rfl,fun c d is other => Option.some.inj (is.symm.trans other)⟩
    | some same =>
      dsimp only
      rw [was.shown,same.shown]
      constructor
      · intro none
        have one := was.value.resolve_right (by rw [none]; decide)
        have other := same.value.resolve_right (by rw [none]; decide)
        rw [one,other]
      · intro c d is other
        split at is
        · cases is
        · split at other
          · cases other
          · exact Option.some.inj (is.symm.trans other)

theorem sameDiff (was : Paths old) (was' : Paths old') (now : Paths cur) (now' : Paths cur')
    (olds : ∀ key, Option.Rel (Same held key) (old.lookup key) (old'.lookup key))
    (curs : ∀ key, Option.Rel (Same held key) (cur.lookup key) (cur'.lookup key)) :
    SameChanges held (diff old cur) (diff old' cur') where
  others := by
    have nodup {o c : List (String × String)} (was : Paths o) (now : Paths c) :
        ((diff o c).filter fun c => !held c.key).Nodup := (diffNodup was now).of_map.filter _
    have sortedBy (o c : List (String × String)) : ((diff o c).filter fun c => !held c.key).Pairwise fun c d => c.key ≤ d.key :=
      List.Pairwise.sublist List.filter_sublist (List.pairwise_insertionSort (fun c d : Change => c.key ≤ d.key) _)
    have perm : ((diff old cur).filter fun c => !held c.key).Perm ((diff old' cur').filter fun c => !held c.key) := by
      refine (List.perm_ext_iff_of_nodup (nodup was now) (nodup was' now')).mpr fun c => ?_
      rw [List.mem_filter,List.mem_filter,memDiff was now,memDiff was' now']
      refine and_congr_left fun free => ?_
      rw [(changeSame (olds c.key) (curs c.key)).1 (Bool.not_eq_true' _ |>.mp free)]
    refine List.Perm.eq_of_pairwise ?_ (sortedBy old cur) (sortedBy old' cur') perm
    intro c d one other less more
    have key := le_antisymm less more
    have mem := (List.mem_filter.mp one).1
    have mem' := (List.mem_filter.mp (perm.mem_iff.mpr other)).1
    exact List.inj_on_of_nodup_map (diffNodup was now) mem mem' key
  listed := by
    intro c one d other key
    refine (changeSame (olds c.key) (curs c.key)).2 c d ((memDiff was now).mp one) ?_
    rw [key]
    exact (memDiff was' now').mp other

end Changes
section Order
variable {before : Key → Key → Bool} {v : Val} {ls : List Leaf}

theorem keepApart (out ls : List Leaf) (apart : ((out ++ ls).map Leaf.path).Nodup) : ls.foldl keep out = out ++ ls := by
  induction ls generalizing out with
  | nil => exact (List.append_nil out).symm
  | cons l ls ih =>
    have fresh : out.filter (fun e => e.path != l.path) = out := by
      refine List.filter_eq_self.mpr fun e mem => bne_iff_ne.mpr ?_
      rw [List.map_append] at apart
      have here : l.path ∈ (l::ls).map Leaf.path := List.mem_map_of_mem List.mem_cons_self
      exact (List.nodup_append.mp apart).2.2 _ (List.mem_map_of_mem mem) _ here
    have step : keep out l = out ++ [l] := by rw [keep,fresh]
    rw [List.foldl_cons,step,ih _ (by rwa [List.append_assoc]),List.append_assoc]
    rfl

theorem walkFree (apart : ((v.leaves "" false).map Leaf.path).Nodup) (walked : ls.Perm (v.leaves "" false)) :
    marshalJSON ((ls.foldl keep []).map (Leaf.entry before)) = marshalJSON (flatten before v) := by
  have apart' : (ls.map Leaf.path).Nodup := (walked.map Leaf.path).nodup_iff.mpr apart
  rw [flattenKept,Val.kept,keepApart [] ls apart',keepApart [] _ apart,List.nil_append,List.nil_append,marshalTold,marshalTold]
  have perm := ((walked.map (Leaf.entry before)).map tell)
  have once : (((ls.map (Leaf.entry before)).map tell).map Prod.fst).Nodup := by
    rw [List.map_map,List.map_map]
    exact apart'
  have sortedPerm {s : List (String × String)} : (sorted s).Perm s := List.perm_insertionSort _ _
  have order (s : List (String × String)) : (sorted s).Pairwise fun e f => e.1 ≤ f.1 :=
    List.pairwise_insertionSort (fun e f : String × String => e.1 ≤ f.1) s
  have same : sorted ((ls.map (Leaf.entry before)).map tell) = sorted (((v.leaves "" false).map (Leaf.entry before)).map tell) := by
    refine List.Perm.eq_of_pairwise ?_ (order _) (order _) (sortedPerm.trans (perm.trans sortedPerm.symm))
    intro e f one other less more
    have mem := sortedPerm.mem_iff.mp one
    have mem' := perm.mem_iff.mpr (sortedPerm.mem_iff.mp other)
    exact List.inj_on_of_nodup_map once mem mem' (le_antisymm less more)
  rw [same]

end Order
section Secrecy
variable {before : Key → Key → Bool} {a b : Val}

theorem toldTell {held : String → Bool} {s t : List (String × String)} (told : List.Forall₂ (Told held) s t) :
    s.map tell = t.map tell := by
  induction told with
  | nil => rfl
  | cons first _ ih =>
    rename_i e f s t more
    obtain ⟨path,same⟩ := first
    have shown : mask e.1 e.2 = mask f.1 f.2 := same.shown.trans (congrArg (mask · f.2) path)
    exact congrArg₂ List.cons (Prod.ext path shown) ih

theorem hiddenUnseen (hidden : Hidden before a) (alike : Alike a b) : Unseen before a b := by
  have told := toldAlike hidden alike
  have paths (v : Val) : Paths (flatten before v) := flattenNodup v
  have same := toldTell told
  exact ⟨by rw [marshalTold,same,marshalTold],blockTold same,
    fun c => sameDiff (paths c) (paths c) (paths a) (paths b) (sameRefl _) (toldLookup told),
    fun c => sameDiff (paths a) (paths b) (paths c) (paths c) (toldLookup told) (sameRefl _)⟩

theorem alikeSecrets (f : String → String) (a : Val) : Alike a (a.secrets f false) :=
  (secretsTwice f (fun _ => "") false a).symm

theorem unseenHidden (unseen : ∀ b, Alike a b → Unseen before a b) : Hidden before a := by
  intro l mem secret holds
  obtain ⟨items,value⟩ := putList (keptPut mem) secret holds
  by_contra shown
  let filled (c : Char) : Val := a.secrets (fun _ => filler c) false
  have same : ((flatten before (filled 'z')).map tell).Perm ((flatten before (filled 'y')).map tell) := by
    have one := (unseen _ (alikeSecrets (fun _ => filler 'z') a)).json
    have other := (unseen _ (alikeSecrets (fun _ => filler 'y') a)).json
    exact marshalSame (one.symm.trans other)
  have entry (c : Char) : (l.secrets fun _ => filler c).entry before ∈ flatten before (filled c) := by
    rw [flattenKept,keptSecrets]
    exact List.mem_map_of_mem (List.mem_map_of_mem mem)
  have plain : listMasked ((l.value.secrets (fun _ => filler 'z') l.direct).leaf before) = false := Bool.eq_false_iff.mpr shown
  have plain' : listMasked ((l.value.secrets (fun _ => filler 'y') l.direct).leaf before) = false := by
    refine Bool.eq_false_iff.mpr fun masked => shown ?_
    rw [value] at masked ⊢
    exact maskedKept fillsFiller.2 _ masked
  have tells (c : Char) (plain : listMasked ((l.value.secrets (fun _ => filler c) l.direct).leaf before) = false) :
      tell ((l.secrets fun _ => filler c).entry before) = (l.secrets fun _ => filler c).entry before := by
    refine Prod.ext rfl (maskShown secret ?_)
    rw [Leaf.entry,String.toList_ofList]
    exact plain
  have one := List.mem_map_of_mem (f := tell) (entry 'z')
  have other := List.mem_map_of_mem (f := tell) (entry 'y')
  rw [tells 'z' plain] at one
  rw [tells 'y' plain'] at other
  have once : (((flatten before (filled 'y')).map tell).map Prod.fst).Nodup := by
    rw [List.map_map]
    exact flattenNodup _
  have whole := List.inj_on_of_nodup_map once (same.mem_iff.mp one) other rfl
  have texts := congrArg Prod.snd whole
  exact leavesDiffer fillsFiller.1 fillsFiller.2 (by decide +kernel) holds (String.ofList_injective texts)

theorem secretsUnseen (before : Key → Key → Bool) (a : Val) : (∀ b, Alike a b → Unseen before a b) ↔ Hidden before a :=
  ⟨unseenHidden,fun hidden _ alike => hiddenUnseen hidden alike⟩

def withNaN (key : String) : Val :=
  .mapping [(.str "servers",.list [.scalar none "NaN".toList,.mapping [(.str "aes_key",.str key)]])]

def longKey (password : String) : Val :=
  .mapping [(.str "servers",.list [.mapping [(.str "application_configuration_backup_password",.str password)]])]

theorem secretsShown :
    let before (k j : Key) := decide (k.print ≤ j.print)
    (Alike (withNaN "x") (withNaN "y") ∧ ¬ Unseen before (withNaN "x") (withNaN "y")) ∧
      Alike (longKey "x") (longKey "y") ∧ ¬ Unseen before (longKey "x") (longKey "y") := by
  have key : isSecret "aes_key".toList = true := by decide +kernel
  have long : isSecret "application_configuration_backup_password".toList = true := by decide +kernel
  refine ⟨⟨?_,fun unseen => absurd unseen.json (by decide +kernel)⟩,?_,fun unseen => absurd unseen.json (by decide +kernel)⟩
  · simp only [Alike,withNaN,Val.secrets,itemSecrets,entrySecrets,Key.print,key,if_true]
  · simp only [Alike,longKey,Val.secrets,itemSecrets,entrySecrets,Key.print,long,if_true]

end Secrecy
end DevkitCommon.Nacosx.Secrets
