import Mathlib.Data.List.Nodup

/-- The rows of a relation under its primary key. -/
structure KeyTable (κ ν : Type) where
  rows : List (κ × ν)
  nodup : (rows.map Prod.fst).Nodup

namespace KeyTable

variable {κ ν : Type} [DecidableEq κ]

def empty : KeyTable κ ν := ⟨[], List.nodup_nil⟩

def get (t : KeyTable κ ν) (k : κ) : Option ν := (t.rows.find? fun r => r.1 = k).map Prod.snd

def replace (k : κ) (v : ν) (r : κ × ν) : κ × ν := if r.1 = k then (k, v) else r

theorem map_fst_replace (k : κ) (v : ν) (rows : List (κ × ν)) :
    (rows.map (replace k v)).map Prod.fst = rows.map Prod.fst := by
  rw [List.map_map]
  refine List.map_congr_left fun r _ => ?_
  by_cases same : r.1 = k <;> simp [replace, same]

/-- `INSERT ... ON CONFLICT DO UPDATE`. -/
def upsert (t : KeyTable κ ν) (k : κ) (v : ν) : KeyTable κ ν :=
  if present : k ∈ t.rows.map Prod.fst then
    ⟨t.rows.map (replace k v), by rw [map_fst_replace]; exact t.nodup⟩
  else
    ⟨t.rows ++ [(k, v)], by
      rw [List.map_append, List.nodup_append]
      refine ⟨t.nodup, List.nodup_singleton _, fun a old b new => ?_⟩
      rw [List.mem_singleton.mp new]
      rintro rfl
      exact present old⟩

def delete (t : KeyTable κ ν) (k : κ) : KeyTable κ ν :=
  ⟨t.rows.filter fun r => r.1 ≠ k, t.nodup.sublist (List.filter_sublist.map _)⟩

@[simp] theorem get_empty (k : κ) : (empty : KeyTable κ ν).get k = none := rfl

theorem get_eq_none_iff {t : KeyTable κ ν} {k : κ} : t.get k = none ↔ k ∉ t.rows.map Prod.fst := by
  rw [get, Option.map_eq_none_iff, List.find?_eq_none]
  constructor
  · intro absent member
    obtain ⟨r, inside, key⟩ := List.mem_map.mp member
    exact absent r inside (decide_eq_true key)
  · intro absent r inside key
    exact absent (List.mem_map.mpr ⟨r, inside, of_decide_eq_true key⟩)

/-- Under a primary key a row is found by its key. -/
theorem get_eq_some_iff {t : KeyTable κ ν} {k : κ} {v : ν} : t.get k = some v ↔ (k, v) ∈ t.rows := by
  obtain ⟨rows, nodup⟩ := t
  simp only [get]
  induction rows with
  | nil => simp
  | cons r rows ih =>
    obtain ⟨fresh, nodup⟩ := List.nodup_cons.mp nodup
    by_cases same : r.1 = k
    · rw [List.find?_cons_of_pos (by simpa using same)]
      constructor
      · intro found
        have value : r.2 = v := by simpa using found
        exact List.mem_cons.mpr (.inl (Prod.ext same.symm value.symm))
      · intro member
        rcases List.mem_cons.mp member with head | tail
        · simp [← head]
        · exact absurd (List.mem_map.mpr ⟨_, tail, same.symm⟩) fresh
    · rw [List.find?_cons_of_neg (by simpa using same), ih nodup, List.mem_cons]
      constructor
      · exact .inr
      · rintro (rfl | tail)
        · exact absurd rfl same
        · exact tail

@[simp] theorem get_upsert_self (t : KeyTable κ ν) (k : κ) (v : ν) : (t.upsert k v).get k = some v := by
  rw [get_eq_some_iff]
  unfold upsert
  split
  · rename_i present
    obtain ⟨r, member, key⟩ := List.mem_map.mp present
    exact List.mem_map.mpr ⟨r, member, by simp [replace, key]⟩
  · simp

theorem get_upsert_of_ne (t : KeyTable κ ν) {k k' : κ} (v : ν) (other : k' ≠ k) : (t.upsert k v).get k' = t.get k' := by
  ext v'
  simp only [get_eq_some_iff]
  unfold upsert
  split
  · constructor
    · intro member
      obtain ⟨r, inside, same⟩ := List.mem_map.mp member
      by_cases own : r.1 = k
      · rw [replace, if_pos own] at same
        exact absurd (congrArg Prod.fst same).symm other
      · rw [replace, if_neg own] at same
        rwa [← same]
    · intro member
      exact List.mem_map.mpr ⟨_, member, by simp [replace, other]⟩
  · simp [other]

/-- Writing the row that is there changes nothing. -/
theorem upsert_of_get {t : KeyTable κ ν} {k : κ} {v : ν} (there : t.get k = some v) : t.upsert k v = t := by
  have member := get_eq_some_iff.mp there
  have present : k ∈ t.rows.map Prod.fst := List.mem_map.mpr ⟨_, member, rfl⟩
  have same : t.rows.map (replace k v) = t.rows := by
    refine (List.map_congr_left fun r inside => ?_).trans (List.map_id _)
    by_cases own : r.1 = k
    · have row : t.get k = some r.2 := get_eq_some_iff.mpr (by rw [← own]; exact inside)
      rw [there] at row
      rw [replace, if_pos own]
      exact Prod.ext own.symm (Option.some.inj row)
    · simp [replace, own]
  simp only [upsert, present, ↓reduceDIte, same]

@[simp] theorem get_delete_self (t : KeyTable κ ν) (k : κ) : (t.delete k).get k = none := by
  simp [get_eq_none_iff, delete]

theorem get_delete_of_ne (t : KeyTable κ ν) {k k' : κ} (other : k' ≠ k) : (t.delete k).get k' = t.get k' := by
  ext v
  simp [get_eq_some_iff, delete, other]

theorem get_upsert (t : KeyTable κ ν) (k k' : κ) (v : ν) :
    (t.upsert k v).get k' = if k' = k then some v else t.get k' := by
  split
  · rename_i same
    rw [same, get_upsert_self]
  · rename_i other
    exact get_upsert_of_ne t v other

theorem get_delete (t : KeyTable κ ν) (k k' : κ) : (t.delete k).get k' = if k' = k then none else t.get k' := by
  split
  · rename_i same
    rw [same, get_delete_self]
  · rename_i other
    exact get_delete_of_ne t other

end KeyTable
