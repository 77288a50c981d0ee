import Mathlib

/-!
# Tables as lists of rows under a key

A table is a list of rows, and a key reads the column that identifies a row.
The lemmas say what the usual statements (insert, delete, update in place,
select by key) do to a column of distinct keys.
-/

namespace KeyedRows

variable {Row Key : Type*} {key : Row → Key} {rows : List Row} {row : Row}

theorem map_key_map {change : Row → Row} (kept : ∀ row, key (change row) = key row)
    (rows : List Row) :
    (rows.map change).map key = rows.map key := by
  simp [Function.comp_def, kept]

theorem nodup_map_append_singleton (distinct : (rows.map key).Nodup)
    (unused : ∀ other ∈ rows, key other ≠ key row) :
    ((rows ++ [row]).map key).Nodup := by
  rw [List.map_append, List.map_singleton, List.nodup_append]
  refine ⟨distinct, List.nodup_singleton _, ?_⟩
  intro value member other single
  rcases List.mem_map.mp member with ⟨found, inRows, rfl⟩
  rw [List.mem_singleton.mp single]
  exact unused found inRows

theorem nodup_map_filter (keep : Row → Bool) (distinct : (rows.map key).Nodup) :
    ((rows.filter keep).map key).Nodup :=
  distinct.sublist (List.filter_sublist.map key)

theorem eq_of_key_eq (distinct : (rows.map key).Nodup) {row other : Row} (inRows : row ∈ rows)
    (otherInRows : other ∈ rows) (same : key row = key other) : row = other :=
  List.inj_on_of_nodup_map distinct inRows otherInRows same

theorem find?_key [DecidableEq Key] (distinct : (rows.map key).Nodup) (inRows : row ∈ rows) :
    rows.find? (fun other => key other = key row) = some row := by
  cases found : rows.find? (fun other => key other = key row) with
  | none =>
    have := List.find?_eq_none.mp found row inRows
    simp at this
  | some other =>
    have same : key other = key row := by simpa using List.find?_some found
    rw [eq_of_key_eq distinct (List.mem_of_find?_eq_some found) inRows same]

theorem sum_indicator_le_one [DecidableEq Key] (distinct : (rows.map key).Nodup) (value : Key) :
    (rows.map fun row => if key row = value then 1 else 0).sum ≤ 1 := by
  induction rows with
  | nil => simp
  | cons row rest ih =>
    simp only [List.map_cons, List.nodup_cons, List.sum_cons] at distinct ⊢
    have below := ih distinct.2
    by_cases same : key row = value
    · have absent : ∀ other ∈ rest, key other ≠ value := fun other member equal =>
        distinct.1 (List.mem_map.mpr ⟨other, member, equal.trans same.symm⟩)
      have zero : (rest.map fun row => if key row = value then 1 else 0) =
          rest.map fun _ => 0 :=
        List.map_congr_left fun other member => if_neg (absent other member)
      simp [same, zero]
    · simpa [same] using below

end KeyedRows
