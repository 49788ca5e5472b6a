import DevkitCommon.Config.File

/-! A variable between double quotes: what its value becomes in the document, and what it does
there to the rest. -/
namespace DevkitCommon.Config
open Words Quoted

section Expanded
variable {getenv mapping : Text → Text} {file name key v before after : Text} {ps : List Part}

theorem expandOther (other : nameOf key ≠ name) : Expand (setenv getenv name v) key = Expand getenv key := by
  unfold Expand
  unfold nameOf at other
  cases is : cut ":-".toList key with
  | none =>
    rw [is] at other
    exact if_neg other
  | some p =>
    rw [is] at other
    have same : setenv getenv name v p.1 = getenv p.1 := if_neg other
    dsimp only
    rw [same]

theorem expandSelf (plain : cut ":-".toList name = none) : Expand (setenv getenv name v) name = v := by
  rw [Expand,plain]
  exact if_pos rfl

theorem expandOwn (own : nameOf key = name) :
    Expand (setenv getenv name v) key = v ∨ Expand (setenv getenv name v) key = Expand (setenv getenv name []) key := by
  unfold Expand
  unfold nameOf at own
  cases is : cut ":-".toList key with
  | none =>
    rw [is] at own
    exact .inl (if_pos own)
  | some p =>
    rw [is] at own
    have set (w : Text) : setenv getenv name w p.1 = w := if_pos own
    dsimp only
    rw [set,set]
    by_cases none' : v = []
    · exact .inr (by rw [none'])
    · exact .inl (if_pos none')

theorem ownReference (mem : .ref key ∈ known getenv name file) : nameOf key = name := by
  obtain ⟨p,_,inside⟩ := List.mem_flatMap.mp mem
  cases p with
  | char c => exact absurd (List.mem_singleton.mp inside) Part.noConfusion
  | ref other =>
    rw [Part.known] at inside
    split at inside
    · rename_i own
      exact Part.ref.inj (List.mem_singleton.mp inside) ▸ own
    · obtain ⟨c,_,same⟩ := List.mem_map.mp inside
      cases same

theorem writeChars (mapping : Text → Text) (t : Text) : write mapping (t.map .char) = t := by
  induction t with
  | nil => rfl
  | cons c t ih => exact congrArg (c::·) ih

theorem expandedIs (getenv : Text → Text) (file name v : Text) :
    osExpand file (Expand (setenv getenv name v)) = write (Expand (setenv getenv name v)) (known getenv name file) := by
  rw [osExpand,known,write,write,List.flatMap_assoc]
  refine List.flatMap_congr fun p _ => ?_
  cases p with
  | char c => rfl
  | ref key =>
    rw [Part.known]
    split
    · exact (List.flatMap_singleton _ _).symm
    · rename_i other
      exact (expandOther other).trans (writeChars _ _).symm

end Expanded
section Loaded
variable {yaml : Reader} {getenv : Text → Text} {available path : String} {file name v w : Text} {ts : List (Token (List Part))}
  {fields : List (Leaf (List Part))} {doc : List (Leaf Text)}

theorem letterText (mapping : Text → Text) (p : Part) (c : Char) (is : letter p = some c) : p.text mapping = [c] := by
  cases p with
  | char d => exact congrArg (fun x => [x]) (Option.some.inj is)
  | ref key => cases is

theorem closedReferences (written : Written yaml getenv file name ts) (whole : closed v = true) :
    ∀ p ∈ known getenv name file, letter p = none → closed (p.text (Expand (setenv getenv name v))) = true := by
  intro p mem reference
  cases p with
  | char c => cases reference
  | ref key =>
    rw [Part.text]
    rcases @expandOwn getenv name key v (ownReference mem) with own | default
    · rwa [own]
    · rw [default]
      exact written.defaults key mem

theorem loadedIs (written : Written yaml getenv file name ts) (composed : yaml.compose ts = .ok fields) (whole : closed v = true)
    (is : LoadFile yaml.unmarshal (setenv getenv name v) available path (.data file) = .ok doc) :
    doc = fields.map (Leaf.map fun content => (yaml.content (write (Expand (setenv getenv name v)) content)).getD []) ∧
      ∀ content, .quoted content ∈ ts → ∃ value, yaml.content (write (Expand (setenv getenv name v)) content) = some value := by
  rw [LoadFile,expandedIs] at is
  refine unmarshalFill (letterText _) (closedReferences written whole) written.scanned composed ?_
  cases parsed : yaml.unmarshal (write (Expand (setenv getenv name v)) (known getenv name file)) with
  | error err =>
    rw [parsed] at is
    cases is
  | ok doc' =>
    rw [parsed] at is
    exact parsed.trans is

theorem substituted (written : Written yaml getenv file name ts) (composed : yaml.compose ts = .ok fields) (whole : closed v = true)
    (is : LoadFile yaml.unmarshal (setenv getenv name v) available path (.data file) = .ok doc) :
    (∀ (i : Nat) (field : Leaf (List Part)), fields[i]? = some field → field.value = .quoted [.ref name] →
      (doc[i]?.map Leaf.value = some (.quoted v) ↔ inert v = true)) ∧
    ∀ w doc', closed w = true → LoadFile yaml.unmarshal (setenv getenv name w) available path (.data file) = .ok doc' →
      doc'.length = doc.length ∧
        ∀ (i : Nat) (field : Leaf (List Part)), fields[i]? = some field → unreferenced field → doc'[i]? = doc[i]? := by
  obtain ⟨rfl,all⟩ := loadedIs written composed whole is
  constructor
  · intro i field there alone
    obtain ⟨value,content⟩ := all _ (composedFrom composed (List.mem_of_getElem? there) alone)
    have self : write (Expand (setenv getenv name v)) [.ref name] = v :=
      (List.append_nil _).trans (expandSelf written.plain)
    have here : (Leaf.map (fun content => (yaml.content (write (Expand (setenv getenv name v)) content)).getD []) field).value =
        .quoted value := by
      rw [Leaf.map,alone,Scalar.map,content]
      rfl
    rw [List.getElem?_map,there,Option.map_some,Option.map_some,here,Option.some_inj,Scalar.quoted.injEq,inertIff,
      and_iff_right whole,← unescapeSame]
    rw [self] at content
    rw [yaml.oneLine v value whole content,Option.some_inj]
  · intro w doc' whole' is'
    obtain ⟨rfl,_⟩ := loadedIs written composed whole' is'
    refine ⟨by rw [List.length_map,List.length_map],fun i field there without => ?_⟩
    rw [List.getElem?_map,List.getElem?_map,there,Option.map_some,Option.map_some]
    refine congrArg some (fieldSame fun content mem => ?_)
    have same : write (Expand (setenv getenv name w)) content = write (Expand (setenv getenv name v)) content := by
      refine List.flatMap_congr fun p inside => ?_
      obtain ⟨c,known⟩ := Option.isSome_iff_exists.mp (without content mem p inside)
      rw [letterText _ p c known,letterText _ p c known]
    rw [same]

end Loaded
section Lines
variable {α β : Type}

def keyed (line : Text) : Option Text := match line.reverse with
  | ' ' :: ':' :: own => some own.reverse
  | _ => none

def fieldLines : Text → Option α → List (Token α) → Option (List (Leaf α))
  | line,none,[] => if line = [] then some [] else none
  | _,some _,[] => none
  | line,none,.char c::rest => if c = '\n' then none else fieldLines (line ++ [c]) none rest
  | line,none,.quoted content::rest => fieldLines line (some content) rest
  | line,some content,.char c::rest =>
    if c = '\n' then (keyed line).bind fun key => (fieldLines [] none rest).map (⟨[.key (.plain key)],.quoted content⟩::·)
    else none
  | _,some _,.quoted _::_ => none

theorem linesBlind (f : α → β) (line : Text) (open' : Option α) (ts : List (Token α)) :
    fieldLines line (open'.map f) (ts.map (Token.map f)) = (fieldLines line open' ts).map (List.map (Leaf.map f)) := by
  induction ts generalizing line open' with
  | nil =>
    cases open' with
    | none =>
      rw [Option.map_none,List.map_nil,fieldLines,fieldLines]
      split <;> rfl
    | some content => rfl
  | cons t ts ih =>
    cases open' with
    | none =>
      cases t with
      | quoted content => exact ih line (some content)
      | char c =>
        rw [Option.map_none,List.map_cons,Token.map,fieldLines,fieldLines]
        split
        · rfl
        · exact ih (line ++ [c]) none
    | some content =>
      cases t with
      | quoted other => rfl
      | char c =>
        rw [Option.map_some,List.map_cons,Token.map,fieldLines,fieldLines]
        split
        · have later := ih [] none
          rw [Option.map_none] at later
          rw [later]
          cases keyed line with
          | none => rfl
          | some key =>
            cases fieldLines [] none ts <;> rfl
        · rfl

/- YAML, as far as it is documents of such lines. -/
def linesReader : Reader where
  Control := Text
  start := []
  opens line := (keyed line).isSome
  next line c := if c = '\n' then [] else line ++ [c]
  behind _ := []
  content t := if closed t = true then unescape t else none
  compose ts := match fieldLines [] none ts with
    | none => .error "no document of quoted fields"
    | some fields => .ok fields
  malformed _ := "found unknown escape character"
  refuses _ doc := if (doc.map Leaf.place).Nodup then none else some "mapping key already defined"
  oneLine t value whole is := by
    rwa [if_pos whole] at is
  blind f ts := by
    have same := linesBlind f [] none ts
    rw [Option.map_none] at same
    rw [same]
    cases fieldLines [] none ts <;> rfl

def passwordFile : Text := "password: \"$\x7bPASSWORD\x7d\"\nhost: \"db\"\n".toList

def load (v : Text) : Except String (List (Leaf Text)) :=
  LoadFile linesReader.unmarshal (setenv (fun _ => []) "PASSWORD".toList v) "local" "conf/local.yaml" (.data passwordFile)

def passwordTokens : List (Token (List Part)) :=
  "password: ".toList.map .char ++ .quoted [.ref "PASSWORD".toList]::.char '\n'::
    ("host: ".toList.map .char ++ [.quoted ("db".toList.map .char),.char '\n'])

def passwordFields : List (Leaf (List Part)) :=
  [⟨[.key (.plain "password".toList)],.quoted [.ref "PASSWORD".toList]⟩,⟨[.key (.plain "host".toList)],.quoted ("db".toList.map .char)⟩]

theorem passwordWritten : Written linesReader (fun _ => []) passwordFile "PASSWORD".toList passwordTokens := by
  refine ⟨by decide +kernel,fun key mem => ?_,by decide +kernel⟩
  have all : ((known (fun _ => []) "PASSWORD".toList passwordFile).all fun p => (letter p).isSome ||
      p == .ref "PASSWORD".toList) = true := by decide +kernel
  have is := List.all_eq_true.mp all _ mem
  obtain rfl : key = "PASSWORD".toList := by simpa [letter] using is
  decide +kernel

theorem passwordSubstituted : ∃ doc, load "p@$: #1".toList = .ok doc ∧ doc[0]?.map Leaf.value = some (.quoted "p@$: #1".toList) := by
  have loads : load "p@$: #1".toList = .ok [⟨[.key (.plain "password".toList)],.quoted "p@$: #1".toList⟩,
      ⟨[.key (.plain "host".toList)],.quoted "db".toList⟩] := by decide +kernel
  have composed : linesReader.compose passwordTokens = .ok passwordFields := by decide +kernel
  have all := (substituted passwordWritten composed (by decide +kernel) loads).1 0 _ rfl rfl
  exact ⟨_,loads,all.mpr (by decide +kernel)⟩

theorem notFaithful :
    (¬ ∀ v doc, load v = .ok doc → doc[0]?.map Leaf.value = some (.quoted v)) ∧
    ¬ ∀ v w doc doc', load v = .ok doc → load w = .ok doc' → doc'[1]? = doc[1]? := by
  constructor
  · intro exact'
    have loads : load "a\\tb".toList = .ok [⟨[.key (.plain "password".toList)],.quoted "a\tb".toList⟩,
        ⟨[.key (.plain "host".toList)],.quoted "db".toList⟩] := by decide +kernel
    exact absurd (exact' _ _ loads) (by decide +kernel)
  · intro apart
    have plain : load "x".toList = .ok [⟨[.key (.plain "password".toList)],.quoted "x".toList⟩,
        ⟨[.key (.plain "host".toList)],.quoted "db".toList⟩] := by decide +kernel
    have written : load "x\"\nadmin: \"yes".toList = .ok [⟨[.key (.plain "password".toList)],.quoted "x".toList⟩,
        ⟨[.key (.plain "admin".toList)],.quoted "yes".toList⟩,⟨[.key (.plain "host".toList)],.quoted "db".toList⟩] := by decide +kernel
    exact absurd (apart _ _ _ _ plain written) (by decide +kernel)

end Lines
end DevkitCommon.Config
