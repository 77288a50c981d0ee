import Mathlib.Data.List.Nodup

/-!
# Maps as lists of entries

A hash map is the list of its entries in the order in which they are iterated
over. Each key has one entry.
-/

namespace Entries

open List

variable {Key Value : Type} [DecidableEq Key] {entries : List (Key × Value)} {key other : Key}
  {value : Value}

def lookup (key : Key) (entries : List (Key × Value)) : Option Value :=
  (entries.find? fun entry => entry.1 = key).map Prod.snd

def insert (key : Key) (value : Value) (entries : List (Key × Value)) : List (Key × Value) :=
  entries.filter (fun entry => entry.1 ≠ key) ++ [(key, value)]

theorem mem_of_lookup_eq_some (found : lookup key entries = some value) :
    (key, value) ∈ entries := by
  unfold lookup at found
  rcases Option.map_eq_some_iff.mp found with ⟨entry, isEntry, rfl⟩
  have same := find?_some isEntry
  have member := mem_of_find?_eq_some isEntry
  simp only [decide_eq_true_eq] at same
  rwa [← same]

theorem lookup_eq_none : lookup key entries = none ↔ ∀ value, (key, value) ∉ entries := by
  unfold lookup
  rw [Option.map_eq_none_iff, find?_eq_none]
  constructor
  · intro absent value member
    exact absent _ member (by simp)
  · intro absent entry member same
    simp only [decide_eq_true_eq] at same
    apply absent entry.2
    rwa [← same]

def Distinct (entries : List (Key × Value)) : Prop := (entries.map Prod.fst).Nodup

omit [DecidableEq Key] in
theorem Distinct.eq_of_mem (distinct : Distinct entries) {another : Value}
    (first : (key, value) ∈ entries) (second : (key, another) ∈ entries) : value = another := by
  have same := inj_on_of_nodup_map distinct first second rfl
  exact congrArg Prod.snd same

theorem mem_insert {entry : Key × Value} :
    entry ∈ insert key value entries ↔ entry = (key, value) ∨ entry ∈ entries ∧ entry.1 ≠ key := by
  unfold insert
  rw [mem_append, mem_filter, mem_singleton]
  simp only [ne_eq, decide_not, Bool.not_eq_eq_eq_not, Bool.not_true, decide_eq_false_iff_not]
  exact or_comm

theorem mem_keys_insert : other ∈ (insert key value entries).map Prod.fst ↔
    other = key ∨ other ∈ entries.map Prod.fst := by
  constructor
  · intro member
    rcases mem_map.mp member with ⟨entry, isEntry, rfl⟩
    rcases mem_insert.mp isEntry with rfl | ⟨isOld, _⟩
    · exact .inl rfl
    · exact .inr (mem_map_of_mem isOld)
  · rintro (rfl | member)
    · exact mem_map_of_mem (f := Prod.fst) (mem_insert.mpr (.inl rfl))
    · rcases mem_map.mp member with ⟨entry, isEntry, rfl⟩
      by_cases same : entry.1 = key
      · rw [same]
        exact mem_map_of_mem (f := Prod.fst) (mem_insert.mpr (.inl rfl))
      · exact mem_map_of_mem (mem_insert.mpr (.inr ⟨isEntry, same⟩))

theorem Distinct.insert (distinct : Distinct entries) (key : Key) (value : Value) :
    Distinct (Entries.insert key value entries) := by
  unfold Distinct Entries.insert
  rw [map_append, nodup_append]
  refine ⟨(distinct.sublist ((filter_sublist).map _)), by simp, ?_⟩
  intro first isFirst second isSecond
  rcases mem_map.mp isFirst with ⟨entry, member, rfl⟩
  simp only [map_cons, map_nil, mem_singleton] at isSecond
  have apart := (mem_filter.mp member).2
  simp only [decide_eq_true_eq] at apart
  rw [isSecond]
  exact apart

end Entries
