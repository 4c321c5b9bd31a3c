import Mathlib.Data.List.Nodup
import ViewRouting.Proofs.Typed

/-! Lookup in records. What is inserted last is found, wherever it is put among the names; names
that stand once stay so, and fields that are laid over others are found before them. -/

namespace ViewRouting.Record

variable {α : Type}

theorem get?_cons (f : String × α) (r : Record α) (k : String) :
    get? (f :: r) k = if k = f.1 then some f.2 else get? r k := by
  rw [get?, List.lookup_cons, get?]
  by_cases h : k = f.1
  · simp [h]
  · simp [h, beq_false_of_ne h]

theorem get?_append (r s : Record α) (k : String) :
    get? (r ++ s) k = (get? r k).or (get? s k) :=
  List.lookup_append

theorem get?_isSome {r : Record α} {k : String} : (get? r k).isSome ↔ k ∈ names r := by
  induction r with
  | nil => simp [get?, names]
  | cons f r ih =>
    rw [get?_cons]
    by_cases h : k = f.1
    · simp [h, names]
    · simpa [h, names] using ih

theorem get?_eq_none {r : Record α} {k : String} (h : k ∉ names r) : get? r k = none := by
  have := mt get?_isSome.mp h
  simpa using this

theorem any_names {r : Record α} {name : String} :
    (r.any fun f => f.1 == name) ↔ name ∈ names r := by
  simp [names]

theorem get?_replace (r : Record α) (name : String) (v : α) (k : String) :
    get? (r.map fun f => if f.1 == name then (name, v) else f) k =
      if k = name then (get? r k).map fun _ => v else get? r k := by
  induction r with
  | nil => simp [get?]
  | cons f r ih =>
    rw [List.map_cons, get?_cons, get?_cons, ih]
    by_cases hf : f.1 = name <;> by_cases hk : k = name
    · simp [hf, hk]
    · simp [hf, hk]
    · have : name ≠ f.1 := Ne.symm hf
      simp [hf, hk, this]
    · simp [hf, hk]

theorem names_replace (r : Record α) (name : String) (v : α) :
    names (r.map fun f => if f.1 == name then (name, v) else f) = names r := by
  induction r with
  | nil => rfl
  | cons f r ih =>
    simp only [names, List.map_cons] at ih ⊢
    rw [ih]
    by_cases h : f.1 = name <;> simp [h]

theorem insert_new {r : Record α} {name : String} (new : name ∉ names r) :
    ∃ before after, r = before ++ after ∧
      ∀ v, insert r name v = before ++ (name, v) :: after := by
  have absent : ¬(r.any fun f => f.1 == name) := mt any_names.mp new
  simp only [insert, if_neg absent]
  cases index? name with
  | none => exact ⟨r, [], by simp, fun _ => rfl⟩
  | some i => exact ⟨_, _, (List.takeWhile_append_dropWhile (p := precedes i)).symm, fun _ => rfl⟩

theorem get?_insert (r : Record α) (name : String) (v : α) (k : String) :
    get? (insert r name v) k = if k = name then some v else get? r k := by
  by_cases known : name ∈ names r
  · rw [insert, if_pos (any_names.mpr known), get?_replace]
    by_cases hk : k = name
    · obtain ⟨w, hw⟩ := Option.isSome_iff_exists.mp (get?_isSome.mpr known)
      simp [hk, hw]
    · simp [hk]
  · obtain ⟨before, after, rfl, inserted⟩ := insert_new known
    rw [inserted, get?_append, get?_append, get?_cons]
    by_cases hk : k = name
    · have absent : get? before k = none := by
        apply get?_eq_none
        rw [hk]
        exact fun h => known (by simp [names] at h ⊢; tauto)
      simp [hk, hk ▸ absent]
    · simp [hk]

theorem insert_distinct {r : Record α} (h : Distinct r) (name : String) (v : α) :
    Distinct (insert r name v) := by
  by_cases known : name ∈ names r
  · rw [insert, if_pos (any_names.mpr known), Distinct, names_replace]
    exact h
  · obtain ⟨before, after, rfl, inserted⟩ := insert_new known
    rw [inserted, Distinct]
    have perm : (names (before ++ (name, v) :: after)).Perm (name :: names (before ++ after)) := by
      simp only [names, List.map_append, List.map_cons]
      exact List.perm_middle
    exact perm.nodup_iff.mpr (List.nodup_cons.mpr ⟨known, h⟩)

theorem get?_insertAll (r : Record α) (fields : List (String × α)) (k : String) :
    get? (insertAll r fields) k = (get? fields.reverse k).or (get? r k) := by
  rw [insertAll]
  induction fields generalizing r with
  | nil => rfl
  | cons f fields ih =>
    rw [List.foldl_cons, ih, get?_insert, List.reverse_cons, get?_append, get?_cons]
    by_cases hk : k = f.1 <;> simp [hk, get?]

theorem insertAll_distinct {r : Record α} (h : Distinct r) (fields : List (String × α)) :
    Distinct (insertAll r fields) := by
  rw [insertAll]
  induction fields generalizing r with
  | nil => exact h
  | cons f fields ih => exact ih (insert_distinct h f.1 f.2)

theorem get?_reverse {r : Record α} (h : Distinct r) (k : String) :
    get? r.reverse k = get? r k := by
  induction r with
  | nil => rfl
  | cons f r ih =>
    obtain ⟨new, rest⟩ := List.nodup_cons.mp h
    rw [List.reverse_cons, get?_append, ih rest, get?_cons, get?_cons]
    by_cases hk : k = f.1
    · rw [hk, get?_eq_none new]
      simp
    · simp [hk, get?]

theorem get?_overlay {outer inner : Record α} (ho : Distinct outer) (hi : Distinct inner)
    (k : String) : get? (overlay outer inner) k = (get? inner k).or (get? outer k) := by
  rw [overlay, ofList, get?_insertAll, List.reverse_append, get?_append, get?_reverse hi,
    get?_reverse ho]
  simp [get?]

theorem overlay_distinct (outer inner : Record α) : Distinct (overlay outer inner) := by
  have none : Distinct ([] : Record α) := List.nodup_nil
  exact insertAll_distinct none _

end ViewRouting.Record
