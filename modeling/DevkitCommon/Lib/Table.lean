import Mathlib.Data.List.Nodup

/-! A table as the list of its rows: UPDATE ... WHERE, DELETE ... WHERE and the key
that names a row. The order of the list carries no meaning of its own. -/
namespace DevkitCommon.Table
variable {ρ κ : Type}

def update (p : ρ → Bool) (f : ρ → ρ) (rows : List ρ) : List ρ :=
  rows.map (fun x => if p x then f x else x)

def delete (p : ρ → Bool) (rows : List ρ) : List ρ := rows.filter (fun x => !p x)

def Keyed (key : ρ → κ) (rows : List ρ) : Prop := (rows.map key).Nodup

variable {p : ρ → Bool} {f : ρ → ρ} {key : ρ → κ} {rows : List ρ} {x y : ρ}

theorem memUpdate (member : y ∈ update p f rows) :
    ∃ x ∈ rows, (p x = true ∧ y = f x) ∨ (p x = false ∧ y = x) := by
  obtain ⟨x,mem,same⟩ := List.mem_map.mp member
  refine ⟨x,mem,?_⟩
  cases hp : p x with
  | true => exact .inl ⟨rfl,by simpa [hp] using same.symm⟩
  | false => exact .inr ⟨rfl,by simpa [hp] using same.symm⟩

theorem updateHit (mem : x ∈ rows) (hit : p x = true) : f x ∈ update p f rows :=
  List.mem_map.mpr ⟨x,mem,by simp [hit]⟩

theorem updateMiss (mem : x ∈ rows) (miss : p x = false) : x ∈ update p f rows :=
  List.mem_map.mpr ⟨x,mem,by simp [miss]⟩

theorem updateFixed (fixed : ∀ x ∈ rows, p x = true → f x = x) : update p f rows = rows := by
  induction rows with
  | nil => rfl
  | cons x rest ih =>
    have tail := ih (fun y mem => fixed y (List.mem_cons_of_mem _ mem))
    simp only [update,List.map_cons] at tail ⊢
    rw [tail]
    split
    · rename_i hit
      rw [fixed x List.mem_cons_self hit]
    · rfl

theorem updateNone (none : ∀ x ∈ rows, p x = false) : update p f rows = rows :=
  updateFixed (fun x mem hit => by rw [none x mem] at hit; contradiction)

theorem updateKeys (stable : ∀ x, key (f x) = key x) :
    (update p f rows).map key = rows.map key := by
  rw [update,List.map_map]
  refine List.map_congr_left (fun x _ => ?_)
  simp only [Function.comp_apply]
  split
  · exact stable x
  · rfl

theorem updateKeyed (stable : ∀ x, key (f x) = key x) (keyed : Keyed key rows) :
    Keyed key (update p f rows) := by
  rw [Keyed,updateKeys stable]
  exact keyed

theorem filterUpdate {q : ρ → Bool} (blind : ∀ x, p x = true → q (f x) = q x) :
    (update p f rows).filter q = update p f (rows.filter q) := by
  induction rows with
  | nil => rfl
  | cons x rest ih =>
    simp only [update,List.map_cons] at ih ⊢
    cases hp : p x with
    | true => cases hq : q x <;> simp [hp,hq,blind x hp,ih]
    | false => cases hq : q x <;> simp [hp,hq,ih]

theorem filterUpdated {q : ρ → Bool} (out : ∀ x, p x = true → q x = false ∧ q (f x) = false) :
    (update p f rows).filter q = rows.filter q := by
  induction rows with
  | nil => rfl
  | cons x rest ih =>
    simp only [update,List.map_cons] at ih ⊢
    cases hp : p x with
    | true => simp [out x hp,ih]
    | false => cases hq : q x <;> simp [hq,ih]

theorem memDelete : x ∈ delete p rows ↔ x ∈ rows ∧ p x = false := by
  simp [delete,List.mem_filter]

theorem deleteKeyed (keyed : Keyed key rows) : Keyed key (delete p rows) :=
  List.Nodup.sublist (List.Sublist.map key List.filter_sublist) keyed

theorem insertKeyed (keyed : Keyed key rows) (fresh : ∀ y ∈ rows, key y ≠ key x) :
    Keyed key (rows ++ [x]) := by
  simp only [Keyed,List.map_append,List.map_cons,List.map_nil]
  refine List.nodup_append.mpr ⟨keyed,by simp,?_⟩
  intro k mem k' last same
  obtain ⟨y,my,ky⟩ := List.mem_map.mp mem
  exact fresh y my (ky.trans (same.trans (List.mem_singleton.mp last)))

theorem sameRow (keyed : Keyed key rows) (hx : x ∈ rows) (hy : y ∈ rows)
    (same : key x = key y) : x = y :=
  List.inj_on_of_nodup_map keyed hx hy same

end DevkitCommon.Table
