import DevkitCommon.Hertzx.Redact

/-! What the audit log shows of a secret: two bodies that differ in one value under a
secret name, JSON or a form, are recorded alike where both are read the same way. -/
namespace DevkitCommon.Hertzx.Audit
open DevkitCommon.Text (runes tail)
open DevkitCommon.JSON
open DevkitCommon.Query (Params parseQuery gather pair pairs pairsAppend gatherShown shown nameOf valueOf)

section Bodies

def content : Escape → Bytes → Option Escape
  | esc, [] => some esc
  | esc, c::rest => if esc = .plain ∧ c = 0x22 then none else (esc.next c).bind (fun esc => content esc rest)

def SecretText (pre : Bytes) : Prop :=
  ∃ stack, run start pre = .reading (.string false [] .plain) stack ∧ hidden secretKey stack = true

def TextFills (post f : Bytes) : Prop := ∃ esc, content .plain f = some esc ∧ (esc = .plain ∨ post = [])

def SecretField (pre post : Bytes) : Prop :=
  (∃ before name k, pre = before ++ name ++ [0x3D] ∧ (before = [] ∨ ∃ b, before = b ++ [0x26]) ∧ 0x26 ∉ name ∧
    0x3D ∉ name ∧ Query.unescape name = some k ∧ secretKey k = true) ∧ (post = [] ∨ ∃ rest, post = 0x26::rest)

/- What may stand there: the body is no JSON, which would be read first. -/
def FieldFills (pre post f : Bytes) : Prop := 0x26 ∉ f ∧ whole (pre ++ f ++ post) = none

end Bodies
section Recorded

mutual
theorem redactVeil (v : Value) : redactValue v = veil secretKey struck false v := by
  cases v with
  | null => rfl
  | bool b => rfl
  | number raw => rfl
  | text s => rfl
  | array items => exact congrArg Value.array (redactItemsVeil items)
  | object members => exact congrArg Value.object (redactMembersVeil members)
theorem redactItemsVeil (items : List Value) : redactItems items = veilItems secretKey struck false items := by
  cases items with
  | nil => rfl
  | cons v rest => rw [redactItems,veilItems,redactVeil v,redactItemsVeil rest]
theorem redactMembersVeil (members : List (Bytes × Value)) :
    redactMembers members = veilMembers secretKey struck false members := by
  cases members with
  | nil => rfl
  | cons m rest =>
    obtain ⟨k,v⟩ := m
    rw [redactMembers,veilMembers,redactVeil v,redactMembersVeil rest]
end

theorem redactMembersMap (members : List (Bytes × Value)) :
    redactMembers members = members.map (fun m => (m.1,if secretKey m.1 then struck else redactValue m.2)) := by
  induction members with
  | nil => rfl
  | cons m rest ih => rw [redactMembers,ih,List.map_cons]

theorem formRedacted {q q' : Params} (same : q.map (shown secretKey) = q'.map (shown secretKey)) :
    redactValue (.object (q.map formMember)) = redactValue (.object (q'.map formMember)) := by
  rw [redactValue,redactValue]
  refine congrArg Value.object ?_
  rw [redactMembersMap,redactMembersMap,List.map_map,List.map_map]
  induction q generalizing q' with
  | nil =>
    cases List.map_eq_nil_iff.mp same.symm
    rfl
  | cons p q ih =>
    cases q' with
    | nil => exact absurd same (List.cons_ne_nil _ _)
    | cons p' q' =>
      obtain ⟨first,rest⟩ := List.cons.inj same
      obtain ⟨name,vs⟩ := p
      obtain ⟨name',vs'⟩ := p'
      obtain ⟨rfl,values⟩ := Prod.mk.inj first
      refine List.cons_eq_cons.mpr ⟨?_,ih rest⟩
      cases hides : secretKey name with
      | true => simp only [Function.comp_apply,formMember,hides,if_true]
      | false =>
        have values : vs = vs' := by simpa only [hides,Bool.false_eq_true,if_false,Option.some.injEq] using values
        rw [values]

theorem unreadHead (n : Nat) : (unread n).head? = some 0x3C := by
  unfold unread bytes
  simp only [String.toList_append,List.flatMap_append,List.append_assoc]
  rfl

theorem validHead (rest : Bytes) : ∃ more, toValidUTF8 (0x7B::rest) = 0x7B::more :=
  ⟨validUnits false (unitsFrom 0 rest),rfl⟩

theorem cutHead (rest : Bytes) : (cutUTF8 (0x7B::rest) auditBodyLimit AuditTruncated).head? = some 0x7B ∨
    (cutUTF8 (0x7B::rest) auditBodyLimit AuditTruncated).head? = some 0xE2 := by
  obtain ⟨more,same⟩ := validHead rest
  unfold cutUTF8
  simp only [same]
  split
  · exact .inl rfl
  · cases boundary (0x7B::more) (auditBodyLimit - AuditTruncated.length) with
    | zero => exact .inr rfl
    | succ n => exact .inl rfl

theorem recordedApart (members : List (Bytes × Value)) (n : Nat) : recorded (.object members) ≠ unread n := by
  intro same
  have heads := congrArg List.head? same
  rw [unreadHead] at heads
  unfold recorded at heads
  rw [redactValue,marshal] at heads
  rcases cutHead _ with brace | mark
  · rw [brace] at heads
    exact absurd heads (by decide)
  · rw [mark] at heads
    exact absurd heads (by decide)

theorem formObject {body : Bytes} {v : Value} (read : parseForm body = some v) :
    ∃ q, parseQuery body = some q ∧ v = .object (q.map formMember) := by
  unfold parseForm at read
  split at read
  · exact absurd read (Option.some_ne_none _).symm
  · split at read
    · exact absurd read (Option.some_ne_none _).symm
    · exact absurd read (Option.some_ne_none _).symm
    · rename_i q _ found
      exact ⟨q,found,(Option.some.inj read).symm⟩

theorem readAlike {body body' : Bytes} (full : body ≠ []) (full' : body' ≠ []) (bad : whole body = none)
    (bad' : whole body' = none) (same : Redact body = Redact body') :
    (parseForm body).isSome = (parseForm body').isSome := by
  unfold Redact at same
  rw [if_neg full,if_neg full',bad,bad'] at same
  cases first : parseForm body with
  | none =>
    cases second : parseForm body' with
    | none => rfl
    | some v =>
      obtain ⟨q,-,rfl⟩ := formObject second
      rw [first,second] at same
      exact absurd same.symm (recordedApart _ _)
  | some v =>
    cases second : parseForm body' with
    | none =>
      obtain ⟨q,-,rfl⟩ := formObject first
      rw [first,second] at same
      exact absurd same (recordedApart _ _)
    | some v' => rfl

end Recorded
section Texts

theorem contentRun {esc esc' : Escape} {f : Bytes} (inside : content esc f = some esc') (naming : Bool) (raw : Bytes)
    (stack : List Frame) :
    run (.reading (.string naming raw esc) stack) f = .reading (.string naming (raw ++ f) esc') stack := by
  induction f generalizing esc raw with
  | nil =>
    cases inside
    rw [List.append_nil]
    rfl
  | cons c f ih =>
    unfold content at inside
    split at inside
    · exact absurd inside (Option.some_ne_none _).symm
    · rename_i goes
      obtain ⟨next,moved,rest⟩ := Option.bind_eq_some_iff.mp inside
      have moves : step (.reading (.string naming raw esc) stack) c =
          .reading (.string naming (raw ++ [c]) next) stack := by
        simp only [step,if_neg goes,moved]
      have later := ih rest (raw ++ [c])
      rw [List.append_assoc] at later
      unfold run at later ⊢
      rw [List.foldl_cons,moves]
      exact later

theorem runAppend (s : State) (xs ys : Bytes) : run s (xs ++ ys) = run (run s xs) ys := List.foldl_append

theorem cutWhole {pre f : Bytes} {esc : Escape} (place : SecretText pre) (inside : content .plain f = some esc) :
    whole (pre ++ f ++ []) = none := by
  obtain ⟨stack,found,-⟩ := place
  have stopped : run start (pre ++ f ++ [] ++ [0x20]) = step (.reading (.string false ([] ++ f) esc) stack) 0x20 := by
    rw [List.append_nil,runAppend,runAppend,found,contentRun inside]
    rfl
  unfold whole decode
  rw [stopped]
  simp only [step]
  rw [if_neg (fun both => absurd both.2 (by decide))]
  cases esc.next 0x20 with
  | none => rfl
  | some next => rfl

theorem wholeAlike {pre post f g : Bytes} (place : SecretText pre) (first : TextFills post f) (second : TextFills post g) :
    (whole (pre ++ f ++ post)).map redactValue = (whole (pre ++ g ++ post)).map redactValue := by
  obtain ⟨esc,inside,plain⟩ := first
  obtain ⟨esc',inside',plain'⟩ := second
  by_cases cut : post = []
  · subst cut
    rw [cutWhole place inside,cutWhole place inside']
  · obtain rfl := plain.resolve_right cut
    obtain rfl := plain'.resolve_right cut
    obtain ⟨stack,found,below⟩ := place
    have last : Alike secretKey struck (run start (pre ++ f ++ post ++ [0x20])) (run start (pre ++ g ++ post ++ [0x20])) := by
      rw [runAppend,runAppend _ (pre ++ f),runAppend _ pre,runAppend _ (pre ++ g ++ post),runAppend _ (pre ++ g),
        runAppend _ pre,found,contentRun inside,contentRun inside']
      exact runAlike (runAlike (.text below (underRefl stack)) _) _
    unfold whole decode
    generalize run start (pre ++ f ++ post ++ [0x20]) = s at last ⊢
    generalize run start (pre ++ g ++ post ++ [0x20]) = s' at last ⊢
    cases last with
    | failed => rfl
    | reading under => rfl
    | text below under => rfl
    | @ended v v' rest same =>
      dsimp only
      cases more rest with
      | true => rfl
      | false =>
        simp only [Bool.false_eq_true,if_false,Option.map_some,redactVeil,same]

theorem placeFilled {pre : Bytes} (place : SecretText pre) (rest : Bytes) : pre ++ rest ≠ [] := by
  obtain ⟨stack,found,-⟩ := place
  intro empty
  rw [(List.append_eq_nil_iff.mp empty).1] at found
  exact absurd found (by simp only [run,List.foldl_nil,start,State.reading.injEq,reduceCtorEq,false_and,not_false_eq_true])

theorem semicolonPairs {pieces : List Bytes} {piece : Bytes} (mem : piece ∈ pieces) (wrong : 0x3B ∈ piece) :
    pairs pieces = none := by
  induction pieces with
  | nil => exact absurd mem List.not_mem_nil
  | cons head pieces ih =>
    rcases List.mem_cons.mp mem with rfl | mem
    · rw [pairs,if_neg (List.ne_nil_of_mem wrong),pair,if_pos wrong]
      rfl
    · rw [pairs,ih mem]
      split
      · rfl
      · cases pair head with
        | none => rfl
        | some p => rfl

theorem pieceOf {body : Bytes} {c : UInt8} (mem : c ∈ body) (other : c ≠ 0x26) : ∃ piece ∈ body.splitOn 0x26, c ∈ piece := by
  induction body with
  | nil => exact absurd mem List.not_mem_nil
  | cons b body ih =>
    rw [List.splitOn_cons_eq_if_modifyHead]
    split
    · rename_i bound
      have later : c ∈ body := (List.mem_cons.mp mem).resolve_left (fun same => other (same.trans (beq_iff_eq.mp bound)))
      obtain ⟨piece,found,inside⟩ := ih later
      exact ⟨piece,List.mem_cons_of_mem _ found,inside⟩
    · cases parts : body.splitOn 0x26 with
      | nil => exact absurd parts (List.splitOn_ne_nil _ _)
      | cons first parts' =>
        rw [List.modifyHead_cons]
        rcases List.mem_cons.mp mem with rfl | later
        · exact ⟨c::first,List.mem_cons_self,List.mem_cons_self⟩
        · obtain ⟨piece,found,inside⟩ := ih later
          rw [parts] at found
          rcases List.mem_cons.mp found with rfl | found
          · exact ⟨b::piece,List.mem_cons_self,List.mem_cons_of_mem _ inside⟩
          · exact ⟨piece,List.mem_cons_of_mem _ found,inside⟩

theorem semicolonForm {body : Bytes} (mem : 0x3B ∈ body) : parseForm body = none := by
  obtain ⟨piece,found,wrong⟩ := pieceOf mem (by decide)
  have refused : parseQuery body = none := by
    unfold parseQuery
    split
    · rw [semicolonPairs found wrong]
      rfl
    · rfl
  unfold parseForm
  split
  · rfl
  · rw [refused]

theorem semicolonFills (post : Bytes) (n : Nat) : TextFills post (List.replicate n 0x3B) := by
  refine ⟨.plain,?_,.inl rfl⟩
  induction n with
  | zero => rfl
  | succ n ih =>
    rw [List.replicate_succ,content,if_neg (fun both => absurd both.2 (by decide))]
    exact ih

theorem neverForm {pre post : Bytes} {n : Nat} (long : n ≠ 0)
    (const : ∀ f g, TextFills post f → TextFills post g → f.length = n → g.length = n →
      (parseForm (pre ++ f ++ post)).isSome = (parseForm (pre ++ g ++ post)).isSome)
    {f : Bytes} (fills : TextFills post f) (size : f.length = n) : parseForm (pre ++ f ++ post) = none := by
  have same := const f _ fills (semicolonFills post n) size (List.length_replicate ..)
  have inside : 0x3B ∈ pre ++ List.replicate n 0x3B ++ post :=
    List.mem_append_left _ (List.mem_append_right _ (List.mem_replicate.mpr ⟨long,rfl⟩))
  rw [semicolonForm inside] at same
  exact Option.not_isSome_iff_eq_none.mp (by rw [same]; exact Bool.false_ne_true)

theorem textHidden {pre : Bytes} (place : SecretText pre) (post : Bytes) (n : Nat) :
    (∀ f g, TextFills post f → TextFills post g → f.length = n → g.length = n →
        Redact (pre ++ f ++ post) = Redact (pre ++ g ++ post)) ↔
      (∀ f, TextFills post f → f.length = n → (whole (pre ++ f ++ post)).isSome) ∨
      ∀ f g, TextFills post f → TextFills post g → f.length = n → g.length = n →
        (parseForm (pre ++ f ++ post)).isSome = (parseForm (pre ++ g ++ post)).isSome := by
  have filled : ∀ f, pre ++ f ++ post ≠ [] := fun f => by
    rw [List.append_assoc]
    exact placeFilled place _
  constructor
  · intro alike
    by_cases all : ∀ f, TextFills post f → f.length = n → (whole (pre ++ f ++ post)).isSome
    · exact .inl all
    · push Not at all
      obtain ⟨h,hFills,-,hOpen⟩ := all
      have opened : ∀ f, TextFills post f → whole (pre ++ f ++ post) = none := fun f fills => by
        have same := wholeAlike place fills hFills
        rw [Option.not_isSome_iff_eq_none.mp hOpen,Option.map_none] at same
        exact Option.map_eq_none_iff.mp same
      exact .inr (fun f g fFills gFills fSize gSize =>
        readAlike (filled f) (filled g) (opened f fFills) (opened g gFills) (alike f g fFills gFills fSize gSize))
  · intro fit f g fFills gFills fSize gSize
    have values := wholeAlike place fFills gFills
    unfold Redact
    rw [if_neg (filled f),if_neg (filled g)]
    cases first : whole (pre ++ f ++ post) with
    | some v =>
      rw [first] at values
      obtain ⟨v',second,same⟩ := Option.map_eq_some_iff.mp values.symm
      rw [second]
      simp only [recorded,same]
    | none =>
      rw [first] at values
      rw [Option.map_eq_none_iff.mp values.symm]
      rcases fit with all | const
      · exact absurd (all f fFills fSize) (by rw [first]; exact Bool.false_ne_true)
      · by_cases empty : n = 0
        · rw [List.length_eq_zero_iff.mp (fSize.trans empty),List.length_eq_zero_iff.mp (gSize.trans empty)]
        · rw [neverForm empty const fFills fSize,neverForm empty const gFills gSize]
          simp only [List.length_append,fSize,gSize]

end Texts
section Fields

theorem splitAround {b : Bytes} (rest : Bytes) : (b ++ 0x26::rest).splitOn 0x26 = b.splitOn 0x26 ++ rest.splitOn 0x26 :=
  List.splitOn_append_cons_self b rest

theorem piecesAround {pre post : Bytes} (place : SecretField pre post) :
    ∃ before name k after, Query.unescape name = some k ∧ secretKey k = true ∧ 0x3D ∉ name ∧
      ∀ f, 0x26 ∉ f → (pre ++ f ++ post).splitOn 0x26 = before ++ (name ++ 0x3D::f)::after := by
  obtain ⟨⟨start,name,k,rfl,first,apart,bare,named,hides⟩,last⟩ := place
  have piece : ∀ f : Bytes, 0x26 ∉ f → 0x26 ∉ name ++ 0x3D::f := fun f clear mem => by
    rcases List.mem_append.mp mem with inName | inRest
    · exact apart inName
    · exact clear ((List.mem_cons.mp inRest).resolve_left (by decide))
  have tail : ∃ after, ∀ f, 0x26 ∉ f → ((name ++ 0x3D::f) ++ post).splitOn 0x26 = (name ++ 0x3D::f)::after := by
    rcases last with rfl | ⟨rest,rfl⟩
    · exact ⟨[],fun f clear => by rw [List.append_nil,List.splitOn_eq_singleton (piece f clear)]⟩
    · refine ⟨rest.splitOn 0x26,fun f clear => ?_⟩
      rw [splitAround,List.splitOn_eq_singleton (piece f clear)]
      rfl
  obtain ⟨after,ends⟩ := tail
  rcases first with rfl | ⟨b,rfl⟩
  · refine ⟨[],name,k,after,named,hides,bare,fun f clear => ?_⟩
    rw [List.nil_append,List.append_assoc name,List.singleton_append,ends f clear]
    rfl
  · refine ⟨b.splitOn 0x26,name,k,after,named,hides,bare,fun f clear => ?_⟩
    have parts : b ++ [0x26] ++ name ++ [0x3D] ++ f ++ post = b ++ 0x26::((name ++ 0x3D::f) ++ post) := by
      simp only [List.append_assoc,List.cons_append,List.nil_append]
    rw [parts,splitAround,ends f clear]

theorem pairNamed {name k f : Bytes} (named : Query.unescape name = some k) (bare : 0x3D ∉ name) {p : Bytes × Bytes}
    (read : pair (name ++ 0x3D::f) = some p) : p.1 = k := by
  have clear : ∀ c ∈ name, (c != 0x3D) = true := fun c mem => bne_iff_ne.mpr (fun same => bare (same ▸ mem))
  have key : nameOf (name ++ 0x3D::f) = name := by
    unfold nameOf
    rw [List.takeWhile_append_of_pos clear]
    simp
  unfold pair at read
  split at read
  · exact absurd read (Option.some_ne_none _).symm
  · rw [key,named] at read
    obtain ⟨v,-,made⟩ := Option.bind_eq_some_iff.mp (show (Query.unescape (valueOf (name ++ 0x3D::f))).bind
      (fun v => some (k,v)) = some p from read)
    exact congrArg Prod.fst (Option.some.inj made).symm

theorem gathered {before after : List Bytes} {piece : Bytes} (full : piece ≠ []) {body : Bytes}
    (parts : body.splitOn 0x26 = before ++ piece::after) {q : Params} (read : parseQuery body = some q) :
    ∃ a p b, pairs before = some a ∧ pair piece = some p ∧ pairs after = some b ∧ q = gather (a ++ p::b) := by
  unfold parseQuery at read
  split at read
  · rw [parts,pairsAppend,pairs,if_neg full] at read
    obtain ⟨ps,found,rfl⟩ := Option.map_eq_some_iff.mp read
    obtain ⟨a,first,later⟩ := Option.bind_eq_some_iff.mp found
    obtain ⟨rest,bound,rfl⟩ := Option.map_eq_some_iff.mp later
    obtain ⟨p,here,more⟩ := Option.bind_eq_some_iff.mp bound
    obtain ⟨b,last,made⟩ := Option.bind_eq_some_iff.mp more
    cases Option.some.inj made
    exact ⟨a,p,b,first,here,last,rfl⟩
  · exact absurd read (Option.some_ne_none _).symm

theorem formAlike {pre post f g : Bytes} (place : SecretField pre post) (clear : 0x26 ∉ f) (clear' : 0x26 ∉ g)
    {v v' : Value} (first : parseForm (pre ++ f ++ post) = some v) (second : parseForm (pre ++ g ++ post) = some v') :
    redactValue v = redactValue v' := by
  obtain ⟨before,name,k,after,named,hides,bare,parts⟩ := piecesAround place
  obtain ⟨q,read,rfl⟩ := formObject first
  obtain ⟨q',read',rfl⟩ := formObject second
  have filled : ∀ f : Bytes, name ++ 0x3D::f ≠ [] := fun f empty =>
    absurd (List.append_eq_nil_iff.mp empty).2 (List.cons_ne_nil _ _)
  obtain ⟨a,p,b,ha,hp,hb,rfl⟩ := gathered (filled f) (parts f clear) read
  obtain ⟨a',p',b',ha',hp',hb',rfl⟩ := gathered (filled g) (parts g clear') read'
  obtain rfl := Option.some.inj (ha.symm.trans ha')
  obtain rfl := Option.some.inj (hb.symm.trans hb')
  have key := pairNamed named bare hp
  have key' := pairNamed named bare hp'
  obtain ⟨n,x⟩ := p
  obtain ⟨n',x'⟩ := p'
  obtain rfl : n = k := key
  obtain rfl : n' = n := key'
  exact formRedacted (gatherShown hides a b x x')

theorem fieldHidden {pre post f g : Bytes} (place : SecretField pre post) (first : FieldFills pre post f)
    (second : FieldFills pre post g) (size : f.length = g.length) :
    Redact (pre ++ f ++ post) = Redact (pre ++ g ++ post) ↔
      (parseForm (pre ++ f ++ post)).isSome = (parseForm (pre ++ g ++ post)).isSome := by
  have filled : ∀ f : Bytes, pre ++ f ++ post ≠ [] := fun f empty => by
    obtain ⟨⟨start,name,k,rfl,-⟩,-⟩ := place
    simp only [List.append_eq_nil_iff,reduceCtorEq,and_false,false_and] at empty
  constructor
  · exact readAlike (filled f) (filled g) first.2 second.2
  · intro same
    unfold Redact
    rw [if_neg (filled f),if_neg (filled g),first.2,second.2]
    cases read : parseForm (pre ++ f ++ post) with
    | none =>
      rw [read] at same
      have unread' : parseForm (pre ++ g ++ post) = none :=
        Option.not_isSome_iff_eq_none.mp (by rw [← same]; exact Bool.false_ne_true)
      rw [unread']
      simp only [List.length_append,size]
    | some v =>
      rw [read] at same
      obtain ⟨v',read'⟩ := Option.isSome_iff_exists.mp same.symm
      rw [read']
      simp only [recorded,formAlike place first.1 second.1 read read']

end Fields

theorem secretsHidden (pre post : Bytes) :
    (SecretText pre → ∀ n, (∀ f g, TextFills post f → TextFills post g → f.length = n → g.length = n →
        Redact (pre ++ f ++ post) = Redact (pre ++ g ++ post)) ↔
      (∀ f, TextFills post f → f.length = n → (whole (pre ++ f ++ post)).isSome) ∨
      ∀ f g, TextFills post f → TextFills post g → f.length = n → g.length = n →
        (parseForm (pre ++ f ++ post)).isSome = (parseForm (pre ++ g ++ post)).isSome) ∧
    (SecretField pre post → ∀ f g, FieldFills pre post f → FieldFills pre post g → f.length = g.length →
      (Redact (pre ++ f ++ post) = Redact (pre ++ g ++ post) ↔
        (parseForm (pre ++ f ++ post)).isSome = (parseForm (pre ++ g ++ post)).isSome)) :=
  ⟨fun place n => textHidden place post n,fun place _ _ first second size => fieldHidden place first second size⟩

theorem passwordPlace : SecretText (bytes "\x7b\"password\":\"") := by
  refine ⟨[.members [] (bytes "password")],?_,by decide +kernel⟩
  rfl

theorem passwordHidden : ∀ f g, TextFills (bytes "\"\x7d") f → TextFills (bytes "\"\x7d") g → f.length = 3 → g.length = 3 →
    Redact (bytes "\x7b\"password\":\"" ++ f ++ bytes "\"\x7d") = Redact (bytes "\x7b\"password\":\"" ++ g ++ bytes "\"\x7d") := by
  refine ((secretsHidden _ _).1 passwordPlace 3).mpr (.inl (fun f fills _ => ?_))
  obtain ⟨esc,inside,plain⟩ := fills
  obtain rfl := plain.resolve_right (by decide +kernel)
  have start' : run start (bytes "\x7b\"password\":\"") =
    .reading (.string false [] .plain) [.members [] (bytes "password")] := rfl
  unfold whole decode
  rw [runAppend,runAppend,runAppend,start',contentRun inside]
  rfl

theorem passwordShown : ∃ pre post f g, SecretText pre ∧ TextFills post f ∧ TextFills post g ∧ f.length = g.length ∧
    Redact (pre ++ f ++ post) ≠ Redact (pre ++ g ++ post) :=
  ⟨bytes "\x7b\"password\":\"",[],bytes "a=b",bytes "c=b",passwordPlace,⟨.plain,by decide +kernel,.inl rfl⟩,
    ⟨.plain,by decide +kernel,.inl rfl⟩,rfl,by decide +kernel⟩

end DevkitCommon.Hertzx.Audit
